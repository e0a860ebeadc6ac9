import OS161.Proc.Freed

namespace OS161.Proc

open Function View

def FreshPid (s : State) : Act → Prop
  | .thread t _ =>
    match (s.threads t).pc with
    | .cpChild .table f _ => s.table (s.mem f.temp).pid = none ∧
        ∀ i c, s.table i = some c → (s.mem c).ppid ≠ (s.mem f.temp).pid
    | _ => True
  | _ => True

def OwnChildren (s : State) : Prop :=
  (∀ t w, (s.threads t).pc = .stopRead w ∨ (s.threads t).pc = .wokenRead w →
    s.alloc w.child = true ∧ s.procOf w.child = w.proc ∧
      (s.life w.proc).parent = (s.threads t).proc) ∧
  (∀ t w x, (s.threads t).pc = .waitDone w (some x) →
    (s.life w.proc).parent = (s.threads t).proc) ∧
  ∀ t i n h, (s.threads t).pc = .reapFree i → s.slot i = some (n, h) →
    (s.life n).parent = (s.threads t).proc

def Present (v : View) (i : Int) (n : Nat) : Prop := ∃ h, h ≠ .freed ∧ v.slot i = some (n, h)

structure Listed (v : View) (i : Int) (n : Nat) (h : Health) : Prop where
  pid : (v.births n).pid = i
  cell : h ≠ .freed → ∃ c, v.table i = some c ∧ v.alloc c = true ∧ v.procOf c = n ∧
    (v.ids c).2 = (v.births n).ppid

structure Unfinished (v : View) (u : Nat) (f : Fork) (k : Nat) : Prop where
  parent : (v.births f.proc).parent = (v.threads u).proc
  cell : k < 5 → v.alloc f.temp = true ∧ v.procOf f.temp = f.proc
  pid : 1 ≤ k → k < 5 → (v.ids f.temp).1 = (v.births f.proc).pid
  ppid : 2 ≤ k → k < 5 → (v.ids f.temp).2 = (v.births f.proc).ppid ∧
    (v.births f.proc).ppid = (v.threads u).pid
  label : 4 ≤ k → (v.threads f.thread).pid = (v.births f.proc).pid
  listed : 5 ≤ k → Present v (v.births f.proc).pid f.proc

def Fits (v : View) (u : Nat) : Role → Prop
  | .other => True
  | .build f k => Unfinished v u f k
  | .point w a => Present v (v.births w.proc).pid w.proc ∧
      v.table (v.births w.proc).pid = some w.child ∧
      (a = true → (v.births w.proc).parent = (v.threads u).proc)
  | .entry i a => ∃ n, Present v i n ∧ (a = true → (v.births n).parent = (v.threads u).proc)
  | .null i => ∃ n, v.slot i = some (n, .freed)

structure Owns (v : View) (u : Nat) : Prop where
  live : (v.threads u).pc.live = true →
    (v.births (v.threads u).proc).pid = (v.threads u).pid ∧
      Present v (v.threads u).pid (v.threads u).proc
  fits : Fits v u (v.role u)

structure Kin (v : View) : Prop where
  core : Core v
  listed : ∀ i n h, v.slot i = some (n, h) → Listed v i n h
  kin : ∀ i j n b h, v.slot i = some (b, h) → Present v j n → (v.births n).ppid = i →
    (v.births n).parent = b
  owns : ∀ u, Owns v u
  null : ∀ u u' i, v.role u = .null i → v.role u' = .null i → u = u'

structure Stays (v v' : View) (n : Nat) : Prop where
  birth : v'.births n = v.births n
  cell : ∀ c, v.alloc c = true → v.procOf c = n →
    v'.alloc c = true ∧ v'.procOf c = n ∧ v'.ids c = v.ids c
  slot : ∀ i, Present v i n → v'.table i = v.table i ∧ Present v' i n

theorem Fits.frame {v v' : View} {u : Nat} {r : Role} (h : Fits v u r)
    (hpid : (v'.threads u).pid = (v.threads u).pid)
    (hproc : (v'.threads u).proc = (v.threads u).proc)
    (hmade : ∀ f k, r = .build f k → (v'.threads f.thread).pid = (v.threads f.thread).pid)
    (hstay : ∀ n, r.refs v.slot = some n → Stays v v' n)
    (hnull : ∀ i, r = .null i → v'.slot i = v.slot i) : Fits v' u r := by
  cases r with
  | other => trivial
  | build f k =>
    have hs := hstay f.proc rfl
    have hd : Unfinished v u f k := h
    refine ⟨by rw [hs.birth,hproc,hd.parent],fun hk => ?_,fun h1 hk => ?_,fun h2 hk => ?_,
      fun hk => by rw [hmade f k rfl,hs.birth,hd.label hk],
      fun hk => by rw [hs.birth]; exact (hs.slot _ (hd.listed hk)).2⟩
    · obtain ⟨ha,hp⟩ := hd.cell hk
      obtain ⟨ha',hp',-⟩ := hs.cell f.temp ha hp
      exact ⟨ha',hp'⟩
    · obtain ⟨ha,hp⟩ := hd.cell hk
      obtain ⟨-,-,hi⟩ := hs.cell f.temp ha hp
      rw [hi,hs.birth,hd.pid h1 hk]
    · obtain ⟨ha,hp⟩ := hd.cell hk
      obtain ⟨-,-,hi⟩ := hs.cell f.temp ha hp
      rw [hi,hs.birth,hpid]
      exact hd.ppid h2 hk
  | point w a =>
    have hs := hstay w.proc rfl
    obtain ⟨hp,htab,hparent⟩ := h
    obtain ⟨htab',hp'⟩ := hs.slot _ hp
    refine ⟨by rw [hs.birth]; exact hp',by rw [hs.birth,htab',htab],fun ha => ?_⟩
    rw [hs.birth,hproc,hparent ha]
  | entry i a =>
    obtain ⟨n,⟨hh,hne,hs⟩,hparent⟩ := h
    have hst := hstay n (Option.map_eq_some_iff.mpr ⟨_,hs,rfl⟩)
    refine ⟨n,(hst.slot i ⟨hh,hne,hs⟩).2,fun ha => ?_⟩
    rw [hst.birth,hproc,hparent ha]
  | null i =>
    obtain ⟨n,hs⟩ := h
    exact ⟨n,by rw [hnull i rfl,hs]⟩

theorem Owns.frame {v v' : View} {u : Nat} (h : Owns v u) (hth : v'.threads u = v.threads u)
    (hmade : ∀ f k, v.role u = .build f k →
      (v'.threads f.thread).pid = (v.threads f.thread).pid)
    (hstay : ∀ n, v.Holds u n → Stays v v' n)
    (hnull : ∀ i, v.role u = .null i → v'.slot i = v.slot i) : Owns v' u := by
  have hrole : v'.role u = v.role u := by rw [View.role,hth,View.role]
  refine ⟨fun hl => ?_,?_⟩
  · rw [hth] at hl ⊢
    obtain ⟨hpid,hp⟩ := h.live hl
    have hs := hstay _ (.inl ⟨hl,rfl⟩)
    exact ⟨by rw [hs.birth,hpid],(hs.slot _ hp).2⟩
  · rw [hrole]
    exact h.fits.frame (by rw [hth]) (by rw [hth]) hmade (fun n hn => hstay n (.inr hn)) hnull

theorem Owns.idle {v : View} {u : Nat} (hlive : (v.threads u).pc.live = false) : Owns v u := by
  refine ⟨fun hl => ?_,?_⟩
  · rw [hlive] at hl
    cases hl
  · have hother : v.role u = .other := by
      by_contra hne
      rw [Pc.live_of_role hne] at hlive
      cases hlive
    rw [hother]
    trivial

theorem Present.mark {v : View} {i j : Int} {n : Nat} {health : Health} (h : Present v j n)
    (hkeep : j = i → health ≠ .freed) : Present (v.mark i health) j n := by
  obtain ⟨hh,hne,hs⟩ := h
  rcases eq_or_ne j i with rfl | hji
  · exact ⟨health,hkeep rfl,by simp [View.mark,hs]⟩
  · exact ⟨hh,hne,by simpa [View.mark,update_of_ne hji] using hs⟩

section
variable {v : View} (h : Kin v)
include h

theorem Kin.present_old {i : Int} {n : Nat} (hp : Present v i n) : n < v.next := by
  obtain ⟨hh,-,hs⟩ := hp
  exact h.core.old i n hh hs

theorem Kin.cell {i : Int} {n c : Nat} (hp : Present v i n) (htab : v.table i = some c) :
    v.alloc c = true ∧ v.procOf c = n ∧ (v.ids c).2 = (v.births n).ppid := by
  obtain ⟨hh,hne,hs⟩ := hp
  obtain ⟨c',htab',hcell⟩ := (h.listed i n hh hs).cell hne
  rw [htab] at htab'
  cases htab'
  exact hcell

theorem Kin.child {t : Nat} {i : Int} {n c : Nat} (hlive : (v.threads t).pc.live = true)
    (hp : Present v i n) (htab : v.table i = some c) (hids : (v.ids c).2 = (v.threads t).pid) :
    (v.births n).parent = (v.threads t).proc := by
  obtain ⟨-,-,hppid⟩ := h.cell hp htab
  obtain ⟨-,hh,-,hs⟩ := (h.owns t).live hlive
  exact h.kin _ i n _ hh hs hp (hppid.symm.trans hids)

theorem Kin.fits {u : Nat} {r : Role} (hr : v.role u = r) : Fits v u r := hr ▸ (h.owns u).fits

theorem Kin.entry_present {u : Nat} {i : Int} {a : Bool} {n : Nat} {hh : Health}
    (hr : v.role u = .entry i a) (hs : v.slot i = some (n, hh)) :
    hh ≠ .freed ∧ (a = true → (v.births n).parent = (v.threads u).proc) := by
  obtain ⟨m,⟨h',hne,hs'⟩,hparent⟩ := h.fits hr
  rw [hs] at hs'
  cases hs'
  exact ⟨hne,hparent⟩

theorem Kin.held {u n : Nat} (hn : v.Holds u n) :
    (∃ i, Present v i n) ∨ ∃ f k, v.role u = .build f k ∧ k < 5 ∧ f.proc = n := by
  rcases hn with ⟨hl,rfl⟩ | hr
  · exact .inl ⟨_,((h.owns u).live hl).2⟩
  · have hfits := (h.owns u).fits
    cases hrole : v.role u with
    | other | null i =>
      rw [hrole] at hr
      cases hr
    | build f k =>
      rw [hrole] at hr hfits
      cases hr
      rcases Nat.lt_or_ge k 5 with hk | hk
      · exact .inr ⟨f,k,rfl,hk,rfl⟩
      · exact .inl ⟨_,hfits.listed hk⟩
    | point w a =>
      rw [hrole] at hr hfits
      cases hr
      exact .inl ⟨_,hfits.1⟩
    | entry i a =>
      rw [hrole] at hr hfits
      obtain ⟨m,⟨hh,hne,hs⟩,-⟩ := hfits
      obtain ⟨hh',hs'⟩ := Role.refs_entry hr
      rw [hs] at hs'
      cases hs'
      exact .inl ⟨i,hh,hne,hs⟩

theorem Kin.held_old {u n : Nat} (hn : v.Holds u n) : n < v.next := by
  rcases h.held hn with ⟨i,hp⟩ | ⟨f,k,hr,-,rfl⟩
  · exact h.present_old hp
  · exact (h.core.build u f k hr).old

theorem Kin.draft_ne {t u n : Nat} (hne : u ≠ t) (hn : v.Holds u n) {f : Fork} {k : Nat}
    (ht : v.role t = .build f k) (hk : k < 5) : f.proc ≠ n := by
  rintro rfl
  rcases h.held hn with ⟨i,hh,-,hs⟩ | ⟨f',k',hr,-,heq⟩
  · exact (h.core.build t f k ht).out hk i hh hs
  · exact h.core.others ht hne hr heq

end

section
variable {v v' : View} {t : Nat}

theorem births_move {n : Nat} (hmove : Move v t v') (hn : n < v.next)
    (hdraft : ∀ f k, v.role t = .build f k → k < 5 → f.proc ≠ n) :
    v'.births n = v.births n := by
  cases hmove with
  | fork => exact update_of_ne (Nat.ne_of_lt hn) _ _
  | number hpc =>
    exact update_of_ne (hdraft _ 0 (congrArg Pc.role hpc) (by decide)).symm _ _
  | descend hpc =>
    exact update_of_ne (hdraft _ 1 (congrArg Pc.role hpc) (by decide)).symm _ _
  | _ => rfl

theorem View.pid_go (v : View) (t u : Nat) (pc : Pc) :
    ((v.go t pc).threads u).pid = (v.threads u).pid := by
  rcases eq_or_ne u t with rfl | hne
  · rw [threads_go_self]
  · rw [threads_go_ne v pc hne]

theorem pid_move {u : Nat} (hmove : Move v t v')
    (hu : ∀ f i, (v.threads t).pc = .cpChild .threadPid f i → u ≠ f.thread) :
    (v'.threads u).pid = (v.threads u).pid := by
  cases hmove with
  | stay => rfl
  | @fork thread temp hpc hthread =>
    rcases eq_or_ne u t with rfl | hut
    · simp [View.fork]
    · rcases eq_or_ne u thread with rfl | huth
      · simp [View.fork,update_of_ne hut]
      · simp [View.fork,update_of_ne hut,update_of_ne huth]
  | @attach f i hpc =>
    rw [pid_go]
    rcases eq_or_ne u f.thread with rfl | hne
    · rw [threads_setThread_self]
    · rw [threads_setThread_ne v _ hne]
  | @label f i hpc =>
    rw [pid_go,threads_setThread_ne v _ (hu f i hpc)]
  | start | discard | abandon => exact (pid_go _ _ _ _).trans (pid_go _ _ _ _)
  | _ => exact pid_go _ _ _ _

theorem proc_move {u : Nat} (hmove : Move v t v') (hu : (v.threads u).pc.live = true)
    (hc : Core v) : (v'.threads u).proc = (v.threads u).proc := by
  cases hmove with
  | stay => rfl
  | @fork thread temp hpc hthread =>
    rcases eq_or_ne u t with rfl | hut
    · simp [View.fork]
    · rcases eq_or_ne u thread with rfl | huth
      · simp [View.fork,update_of_ne hut]
      · simp [View.fork,update_of_ne hut,update_of_ne huth]
  | @attach f i hpc | @label f i hpc =>
    have hne := (hc.apart hu (congrArg Pc.role hpc)).symm
    rw [proc_go,threads_setThread_ne v _ hne]
  | start | discard | abandon => exact (proc_go _ _ _ _).trans (proc_go _ _ _ _)
  | _ => exact proc_go _ _ _ _

theorem threads_move {u : Nat} (hmove : Move v t v') (hc : Core v) (hu : u ≠ t) :
    v'.threads u = v.threads u ∨ (v'.threads u).pc.live = false ∨
      ∃ f, (v.threads t).pc = .tfRun f ∧ u = f.thread ∧ v' = (v.go f.thread .user).go t .user := by
  cases hmove with
  | stay => exact .inl rfl
  | @fork thread temp hpc hthread =>
    rcases eq_or_ne u thread with rfl | huth
    · refine .inr (.inl ?_)
      simp [View.fork,update_of_ne hu,Pc.live]
    · exact .inl (by simp [View.fork,update_of_ne hu,update_of_ne huth])
  | @attach f i hpc | @label f i hpc =>
    rcases eq_or_ne u f.thread with rfl | hne
    · refine .inr (.inl ?_)
      rw [threads_go_ne _ _ hu,v.pc_setThread (by rfl),
        (hc.build t f _ (congrArg Pc.role hpc)).thread]
      rfl
    · exact .inl ((threads_go_ne _ _ hu).trans (threads_setThread_ne v _ hne))
  | @start f hpc =>
    rcases eq_or_ne u f.thread with rfl | hne
    · exact .inr (.inr ⟨f,hpc,rfl,rfl⟩)
    · exact .inl ((threads_go_ne _ _ hu).trans (threads_go_ne _ _ hne))
  | @discard f k hr | @abandon f hr =>
    rcases eq_or_ne u f.thread with rfl | hne
    · refine .inr (.inl ?_)
      rw [threads_go_ne _ _ hu,threads_go_self]
      rfl
    · exact .inl ((threads_go_ne _ _ hu).trans (threads_go_ne _ _ hne))
  | _ => exact .inl (threads_go_ne _ _ hu)

theorem live_move (hmove : Move v t v') : v' = v ∨ (v.threads t).pc.live = true := by
  cases hmove with
  | stay => exact .inl rfl
  | turn hlive => exact .inr hlive
  | discard hrole | abandon hrole => exact .inr (live_of_build hrole)
  | look hpc | fetch hpc | accept hpc | pass hpc | spoil hpc | free hpc | skip hpc | drop hpc
  | fork hpc | number hpc | descend hpc | attach hpc | label hpc | register hpc | start hpc =>
    exact .inr (by rw [hpc]; rfl)

theorem Fits.go {v : View} {t u : Nat} {pc : Pc} {r : Role} (hf : Fits v t r) :
    Fits (v.go u pc) t r :=
  hf.frame (pid_go _ _ _ _) (proc_go _ _ _ _) (fun _ _ _ => pid_go _ _ _ _)
    (fun _ _ => ⟨rfl,fun _ ha hp => ⟨ha,hp,rfl⟩,fun _ hp => ⟨rfl,hp⟩⟩) fun _ _ => rfl

end

section Moves
variable {v v' : View} {t : Nat} (h : Kin v)
include h

theorem Kin.stays {n : Nat} (hmove : Move v t v') (hn : n < v.next)
    (hdraft : ∀ f k, v.role t = .build f k → k < 5 → f.proc ≠ n)
    (hfree : ∀ i hh, (v.threads t).pc = .reapFree i → v.slot i ≠ some (n, hh))
    (hfresh : ∀ f i, (v.threads t).pc = .cpChild .table f i → v.table (v.ids f.temp).1 = none) :
    Stays v v' n := by
  have hbirth := births_move hmove hn hdraft
  have htemp : ∀ {f k c}, v.role t = .build f k → k < 5 → v.procOf c = n → c ≠ f.temp := by
    rintro f k c ht hk hp rfl
    exact hdraft f k ht hk (((h.fits ht).cell hk).2.symm.trans hp)
  cases hmove with
  | @spoil i hpc =>
    exact ⟨rfl,fun c ha hp => ⟨ha,hp,rfl⟩,
      fun j hp => ⟨rfl,hp.mark fun _ => by decide⟩⟩
  | @free i c hpc htab =>
    obtain ⟨m,hp,-⟩ := h.fits (congrArg Pc.role hpc : v.role t = .entry i true)
    have hm : n ≠ m := by
      rintro rfl
      obtain ⟨hh,-,hs⟩ := hp
      exact hfree i hh hpc hs
    refine ⟨rfl,fun d ha hd => ⟨?_,hd,rfl⟩,fun j hj => ⟨rfl,?_⟩⟩
    · have hdc : d ≠ c := by
        rintro rfl
        exact hm (hd.symm.trans (h.cell hp htab).2.1)
      exact (update_of_ne hdc _ _).trans ha
    · have hmark : Present ((v.kfree c).mark i .freed) j n := by
        refine Present.mark (v := v.kfree c) hj fun hji => ?_
        obtain ⟨hh,-,hs⟩ := hj
        exact absurd (hji ▸ hs) (hfree i hh hpc)
      exact hmark
  | @drop i hpc =>
    obtain ⟨m,hm⟩ := h.fits (congrArg Pc.role hpc : v.role t = .null i)
    refine ⟨rfl,fun c ha hp => ⟨ha,hp,rfl⟩,fun j ⟨hh,hne,hs⟩ => ?_⟩
    have hji : j ≠ i := by
      rintro rfl
      rw [hm] at hs
      cases hs
      exact hne rfl
    exact ⟨update_of_ne hji _ _,hh,hne,(update_of_ne hji _ _).trans hs⟩
  | @fork thread temp hpc hthread hfreeTemp =>
    refine ⟨hbirth,fun c ha hp => ?_,fun i hp => ⟨rfl,hp⟩⟩
    have hc : c ≠ temp := by
      rintro rfl
      rw [hfreeTemp] at ha
      cases ha
    exact ⟨(update_of_ne hc _ _).trans ha,(update_of_ne hc _ _).trans hp,rfl⟩
  | @number f i hpc | @descend f i hpc =>
    exact ⟨hbirth,fun c ha hp => ⟨ha,hp,update_of_ne
      (htemp (congrArg Pc.role hpc) (by decide) hp) _ _⟩,fun i hp => ⟨rfl,hp⟩⟩
  | @register f i hpc =>
    have hnone := (h.core.vacant _).mp (hfresh f i hpc)
    refine ⟨rfl,fun c ha hp => ⟨ha,hp,rfl⟩,fun j ⟨hh,hne,hs⟩ => ?_⟩
    have hj : j ≠ (v.ids f.temp).1 := by
      rintro rfl
      rw [hnone] at hs
      cases hs
    exact ⟨update_of_ne hj _ _,hh,hne,(update_of_ne hj _ _).trans hs⟩
  | @discard f k hr hk =>
    exact ⟨rfl,fun c ha hp => ⟨(update_of_ne (htemp hr hk hp) _ _).trans ha,hp,rfl⟩,
      fun i hp => ⟨rfl,hp⟩⟩
  | _ => exact ⟨rfl,fun c ha hp => ⟨ha,hp,rfl⟩,fun i hp => ⟨rfl,hp⟩⟩

theorem Kin.null_slot {u : Nat} (hmove : Move v t v') (hu : u ≠ t) {i : Int}
    (hr : v.role u = .null i)
    (hfresh : ∀ f i, (v.threads t).pc = .cpChild .table f i → v.table (v.ids f.temp).1 = none) :
    v'.slot i = v.slot i := by
  obtain ⟨m,hm⟩ := h.fits hr
  have hentry : ∀ {j a}, v.role t = .entry j a → i ≠ j := by
    rintro j a ht rfl
    exact (h.entry_present ht hm).1 rfl
  cases hmove with
  | @spoil j hpc | @free j c hpc htab =>
    exact update_of_ne (hentry (congrArg Pc.role hpc)) _ _
  | @drop j hpc =>
    have hij : i ≠ j := by
      rintro rfl
      exact hu (h.null u t i hr (congrArg Pc.role hpc))
    exact update_of_ne hij _ _
  | @register f j hpc =>
    have hne : i ≠ (v.ids f.temp).1 := by
      rintro rfl
      rw [(h.core.vacant _).mp (hfresh f j hpc)] at hm
      cases hm
    exact update_of_ne hne _ _
  | _ => rfl

theorem Kin.owns_other {u : Nat} (hmove : Move v t v') (hu : u ≠ t)
    (hfree : ∀ i n hh, (v.threads t).pc = .reapFree i → v.slot i = some (n, hh) → ¬ v.Holds u n)
    (hfresh : ∀ f i, (v.threads t).pc = .cpChild .table f i → v.table (v.ids f.temp).1 = none) :
    Owns v' u := by
  rcases threads_move hmove h.core hu with hth | hdead | ⟨f,hpc,rfl,rfl⟩
  · refine (h.owns u).frame hth (fun f k hr => pid_move hmove fun f' i hpc heq => ?_)
      (fun n hn => ?_) fun i hr => h.null_slot hmove hu hr hfresh
    · exact hu (h.core.maker (congrArg Pc.role hpc) hr heq)
    · exact h.stays hmove (h.held_old hn) (fun f k ht hk => h.draft_ne hu hn ht hk)
        (fun i hh hpc hs => hfree i n hh hpc hs hn) hfresh
  · exact .idle hdead
  · have ht : v.role t = .build f 5 := congrArg Pc.role hpc
    have hd : Unfinished v t f 5 := h.fits ht
    have hptr := (h.core.build t f 5 ht).ptr (by decide)
    refine ⟨fun _ => ?_,?_⟩
    · rw [proc_go,proc_go,pid_go,pid_go,hptr,hd.label (by decide)]
      exact ⟨rfl,hd.listed (by decide)⟩
    · rw [role_go_ne _ _ hu,role_go_self]
      trivial

theorem Kin.stays_self (hlive : (v.threads t).pc.live = true) (hmove : Move v t v')
    (hfree : ∀ i n hh, (v.threads t).pc = .reapFree i → v.slot i = some (n, hh) →
      (v.threads t).proc ≠ n)
    (hfresh : ∀ f i, (v.threads t).pc = .cpChild .table f i → v.table (v.ids f.temp).1 = none) :
    Stays v v' (v.threads t).proc := by
  have hp := ((h.owns t).live hlive).2
  refine h.stays hmove (h.present_old hp) (fun f k ht hk heq => ?_)
    (fun i hh hpc hs => hfree i _ hh hpc hs rfl) hfresh
  obtain ⟨hh,-,hs⟩ := hp
  exact (h.core.build t f k ht).out hk _ hh (heq ▸ hs)

theorem Kin.live_self (hmove : Move v t v')
    (hfree : ∀ i n hh, (v.threads t).pc = .reapFree i → v.slot i = some (n, hh) →
      (v.threads t).proc ≠ n)
    (hfresh : ∀ f i, (v.threads t).pc = .cpChild .table f i → v.table (v.ids f.temp).1 = none)
    (hlive' : (v'.threads t).pc.live = true) :
    (v'.births (v'.threads t).proc).pid = (v'.threads t).pid ∧
      Present v' (v'.threads t).pid (v'.threads t).proc := by
  rcases live_move hmove with rfl | hlive
  · exact (h.owns t).live hlive'
  · obtain ⟨hpid,hp⟩ := (h.owns t).live hlive
    have hst := h.stays_self hlive hmove hfree hfresh
    rw [proc_move hmove hlive h.core,pid_move hmove fun f i hpc =>
      (h.core.apart hlive (congrArg Pc.role hpc)).symm,hst.birth]
    exact ⟨hpid,(hst.slot _ hp).2⟩

theorem Kin.fits_self (hmove : Move v t v')
    (hseen : ∀ i n hh, (v.threads t).pc = .scan i ∨ (v.threads t).pc = .getRead i →
      v.slot i = some (n, hh) → hh ≠ .freed) :
    Fits v' t (v'.role t) := by
  have hgo : ∀ {v₁ : View} {pc : Pc}, Fits v₁ t pc.role →
      Fits (v₁.go t pc) t ((v₁.go t pc).role t) := by
    intro v₁ pc hf
    rw [role_go_self]
    exact hf.go
  cases hmove with
  | stay => exact (h.owns t).fits
  | turn hlive hfrees hrole =>
    refine hgo ?_
    rcases hrole with hr | hr <;> rw [hr]
    · trivial
    · exact (h.owns t).fits
  | @look i hpc htab =>
    obtain ⟨c,hc⟩ := Option.ne_none_iff_exists'.mp htab
    obtain ⟨n,hh,hs⟩ := h.core.slot_of_table hc
    exact hgo ⟨n,⟨hh,hseen i n hh (.inl hpc) hs,hs⟩,nofun⟩
  | @fetch pid c parent hpc htab =>
    obtain ⟨n,hh,hs⟩ := h.core.slot_of_table htab
    have hpid := (h.listed pid n hh hs).pid
    have hn : ((v.slot pid).map (·.1)).getD v.next = n := by rw [hs]; rfl
    refine hgo ?_
    rw [hn]
    exact ⟨⟨hh,hseen pid n hh (.inr hpc) hs,hpid ▸ hs⟩,hpid.symm ▸ htab,nofun⟩
  | @accept w hpc hids =>
    obtain ⟨hp,htab,-⟩ := h.fits (congrArg Pc.role hpc : v.role t = .point w false)
    exact hgo ⟨hp,htab,fun _ => h.child (by rw [hpc]; rfl) hp htab hids⟩
  | @pass i c hpc htab hids =>
    obtain ⟨n,hp,-⟩ := h.fits (congrArg Pc.role hpc : v.role t = .entry i false)
    exact hgo ⟨n,hp,fun _ => h.child (by rw [hpc]; rfl) hp htab hids⟩
  | @spoil i hpc =>
    obtain ⟨n,hp,hparent⟩ := h.fits (congrArg Pc.role hpc : v.role t = .entry i true)
    exact hgo ⟨n,hp.mark fun _ => by decide,hparent⟩
  | @free i c hpc htab =>
    obtain ⟨n,⟨hh,-,hs⟩,-⟩ := h.fits (congrArg Pc.role hpc : v.role t = .entry i true)
    exact hgo ⟨n,by simp [View.mark,View.kfree,hs]⟩
  | @skip i hpc htab =>
    obtain ⟨n,⟨hh,-,hs⟩,-⟩ := h.fits (congrArg Pc.role hpc : v.role t = .entry i true)
    rw [(h.core.vacant i).mp htab] at hs
    cases hs
  | drop hpc => exact hgo trivial
  | @fork thread temp hpc hthread hfreeTemp =>
    have hrole : (v.fork t thread temp).role t = .build ⟨temp,thread,v.next⟩ 0 := by
      simp [View.role,View.fork,Pc.role]
    rw [hrole]
    refine ⟨by simp [View.fork],fun _ => by simp [View.fork],?_,?_,?_,?_⟩ <;>
      exact fun hk => absurd hk (by decide)
  | @number f i hpc =>
    have hd : Unfinished v t f 0 := h.fits (congrArg Pc.role hpc)
    refine hgo ⟨?_,fun _ => hd.cell (by decide),fun _ _ => ?_,?_,?_,?_⟩
    · simpa [View.setBirth,View.setIds] using hd.parent
    · simp [View.setBirth,View.setIds]
    all_goals exact fun hk => absurd hk (by decide)
  | @descend f i hpc =>
    have hd : Unfinished v t f 1 := h.fits (congrArg Pc.role hpc)
    refine hgo ⟨?_,fun _ => hd.cell (by decide),fun _ _ => ?_,fun _ _ => ?_,?_,?_⟩
    · simpa [View.setBirth,View.setIds] using hd.parent
    · simpa [View.setBirth,View.setIds] using hd.pid (by decide) (by decide)
    · simp [View.setBirth,View.setIds]
    all_goals exact fun hk => absurd hk (by decide)
  | @attach f i hpc =>
    have ht : v.role t = .build f 2 := congrArg Pc.role hpc
    have hd : Unfinished v t f 2 := h.fits ht
    have hne := (h.core.apart (by rw [hpc]; rfl) ht).symm
    have hth := threads_setThread_ne v
      { v.threads f.thread with arrayPtr := f.temp, proc := f.proc } hne
    refine hgo ⟨by rw [hth]; exact hd.parent,fun _ => hd.cell (by decide),
      fun _ _ => hd.pid (by decide) (by decide),
      fun _ _ => by rw [hth]; exact hd.ppid (by decide) (by decide),?_,?_⟩ <;>
      exact fun hk => absurd hk (by decide)
  | @label f i hpc =>
    have ht : v.role t = .build f 3 := congrArg Pc.role hpc
    have hd : Unfinished v t f 3 := h.fits ht
    have hne := (h.core.apart (by rw [hpc]; rfl) ht).symm
    have hth := threads_setThread_ne v
      { v.threads f.thread with pid := (v.ids f.temp).1 } hne
    refine hgo ⟨by rw [hth]; exact hd.parent,fun _ => hd.cell (by decide),
      fun _ _ => hd.pid (by decide) (by decide),
      fun _ _ => by rw [hth]; exact hd.ppid (by decide) (by decide),fun _ => ?_,
      fun hk => absurd hk (by decide)⟩
    rw [threads_setThread_self]
    exact hd.pid (by decide) (by decide)
  | @register f i hpc =>
    have hd : Unfinished v t f 4 := h.fits (congrArg Pc.role hpc)
    have hpid := hd.pid (by decide) (by decide)
    refine hgo ⟨hd.parent,fun hk => absurd hk (by decide),fun _ hk => absurd hk (by decide),
      fun _ hk => absurd hk (by decide),fun _ => hd.label (by decide),
      fun _ => ⟨.sound,by decide,?_⟩⟩
    show update v.slot (v.ids f.temp).1 _ (v.births f.proc).pid = _
    rw [hpid,update_self]
  | start | discard | abandon => exact hgo trivial

theorem Kin.slot_origin (hmove : Move v t v') {i : Int} {n : Nat} {hh : Health}
    (hs : v'.slot i = some (n, hh)) :
    (∃ h₀, v.slot i = some (n, h₀) ∧ (hh ≠ .freed → h₀ ≠ .freed ∧
      ∀ j h', (v.threads t).pc = .reapFree j → v.slot j ≠ some (n, h'))) ∨
    ∃ f j, (v.threads t).pc = .cpChild .table f j ∧ i = (v.ids f.temp).1 ∧ n = f.proc ∧
      v'.births = v.births ∧ v'.ids = v.ids ∧ v'.alloc = v.alloc ∧ v'.procOf = v.procOf ∧
      v'.table i = some f.temp := by
  have hkept : ∀ {pc}, (v.threads t).pc = pc → pc.frees = none → v.slot i = some (n, hh) →
      ∃ h₀, v.slot i = some (n, h₀) ∧ (hh ≠ .freed → h₀ ≠ .freed ∧
        ∀ j h', (v.threads t).pc = .reapFree j → v.slot j ≠ some (n, h')) := by
    intro pc hpc hf hs
    refine ⟨hh,hs,fun hne => ⟨hne,fun j h' hj => ?_⟩⟩
    rw [← hpc,hj] at hf
    cases hf
  cases hmove with
  | stay hf | turn hlive hf hrole => exact .inl (hkept rfl hf hs)
  | @spoil j hpc =>
    obtain ⟨h₀,hs₀,hcase⟩ := v.slot_mark hs
    refine .inl ⟨h₀,hs₀,fun hne => ⟨?_,fun j' h' hj => by rw [hpc] at hj; cases hj⟩⟩
    rcases hcase with ⟨rfl,-⟩ | ⟨-,rfl⟩
    · exact (h.entry_present (congrArg Pc.role hpc) hs₀).1
    · exact hne
  | @free j c hpc htab =>
    obtain ⟨h₀,hs₀,hcase⟩ := (v.kfree c).slot_mark hs
    refine .inl ⟨h₀,hs₀,fun hne => ?_⟩
    rcases hcase with ⟨-,rfl⟩ | ⟨hij,rfl⟩
    · exact absurd rfl hne
    · refine ⟨hne,fun j' h' hj hs' => hij ?_⟩
      rw [hpc] at hj
      cases hj
      exact h.core.inj i j n _ _ hs₀ hs'
  | @skip j hpc htab =>
    obtain ⟨m,⟨h',-,hs'⟩,-⟩ := h.fits (congrArg Pc.role hpc : v.role t = .entry j true)
    rw [(h.core.vacant j).mp htab] at hs'
    cases hs'
  | @drop j hpc => exact .inl (hkept hpc rfl (slot_clear hs))
  | @register f j hpc =>
    rcases slot_register (c := f.temp) hs with ⟨rfl,rfl,-⟩ | ⟨-,hs⟩
    · exact .inr ⟨f,j,hpc,rfl,rfl,rfl,rfl,rfl,rfl,update_self _ _ _⟩
    · exact .inl (hkept hpc rfl hs)
  | discard hrole | abandon hrole => exact .inl (hkept rfl (Pc.frees_of_build hrole) hs)
  | look hpc | fetch hpc | accept hpc | pass hpc | fork hpc | number hpc | descend hpc | attach hpc
  | label hpc | start hpc => exact .inl (hkept hpc rfl hs)

theorem Kin.out_draft {i : Int} {n : Nat} {hh : Health} (hs : v.slot i = some (n, hh)) :
    ∀ f k, v.role t = .build f k → k < 5 → f.proc ≠ n := by
  rintro f k ht hk rfl
  exact (h.core.build t f k ht).out hk i hh hs

theorem Kin.listed_move (hmove : Move v t v')
    (hfresh : ∀ f i, (v.threads t).pc = .cpChild .table f i → v.table (v.ids f.temp).1 = none)
    {i : Int} {n : Nat} {hh : Health} (hs : v'.slot i = some (n, hh)) : Listed v' i n hh := by
  rcases h.slot_origin hmove hs with
    ⟨h₀,hs₀,hkept⟩ | ⟨f,j,hpc,rfl,rfl,hb,hi,ha,hp,htab⟩
  · have hold := h.core.old i n h₀ hs₀
    have hl := h.listed i n h₀ hs₀
    refine ⟨by rw [births_move hmove hold (h.out_draft hs₀),hl.pid],fun hne => ?_⟩
    obtain ⟨hne₀,hfree⟩ := hkept hne
    have hst := h.stays hmove hold (h.out_draft hs₀) hfree hfresh
    obtain ⟨c,htab,ha,hp,hppid⟩ := hl.cell hne₀
    obtain ⟨ha',hp',hi'⟩ := hst.cell c ha hp
    exact ⟨c,(hst.slot i ⟨h₀,hne₀,hs₀⟩).1.trans htab,ha',hp',by rw [hi',hst.birth,hppid]⟩
  · have hd : Unfinished v t f 4 := h.fits (congrArg Pc.role hpc)
    obtain ⟨hcell,hproc⟩ := hd.cell (by decide)
    refine ⟨by rw [hb,hd.pid (by decide) (by decide)],fun _ => ⟨f.temp,htab,by rw [ha,hcell],
      by rw [hp,hproc],?_⟩⟩
    rw [hi,hb]
    exact (hd.ppid (by decide) (by decide)).1

theorem Kin.kin_move (hmove : Move v t v')
    (hfresh : ∀ f i, (v.threads t).pc = .cpChild .table f i → v.table (v.ids f.temp).1 = none ∧
      ∀ j c, v.table j = some c → (v.ids c).2 ≠ (v.ids f.temp).1)
    {i j : Int} {n b : Nat} {hh : Health} (hb : v'.slot i = some (b, hh)) (hn : Present v' j n)
    (hppid : (v'.births n).ppid = i) : (v'.births n).parent = b := by
  obtain ⟨h',hne,hs⟩ := hn
  rcases h.slot_origin hmove hs with ⟨h₀,hs₀,hkept⟩ | ⟨f,k,hpc,rfl,rfl,hbirths,-⟩
  · have hp : Present v j n := ⟨h₀,(hkept hne).1,hs₀⟩
    rw [births_move hmove (h.present_old hp) (h.out_draft hs₀)] at hppid ⊢
    rcases h.slot_origin hmove hb with ⟨h₁,hs₁,-⟩ | ⟨f,k,hpc,rfl,rfl,-⟩
    · exact h.kin i j n b h₁ hs₁ hp hppid
    · obtain ⟨c,htab,-,-,hids⟩ := (h.listed j n h₀ hs₀).cell (hkept hne).1
      exact absurd (hids.trans hppid) ((hfresh f k hpc).2 j c htab)
  · have hd : Unfinished v t f 4 := h.fits (congrArg Pc.role hpc)
    have hlive : (v.threads t).pc.live = true := by rw [hpc]; rfl
    obtain ⟨-,h₂,-,hs₂⟩ := (h.owns t).live hlive
    rw [hbirths] at hppid ⊢
    rw [(hd.ppid (by decide) (by decide)).2] at hppid
    rcases h.slot_origin hmove hb with ⟨h₁,hs₁,-⟩ | ⟨g,k',hg,hi,-⟩
    · rw [← hppid,hs₂] at hs₁
      cases hs₁
      exact hd.parent
    · rw [hi] at hppid
      rw [hppid,(h.core.vacant _).mp (hfresh g k' hg).1] at hs₂
      cases hs₂

theorem Kin.null_origin (hmove : Move v t v') {u : Nat} {i : Int} (hr : v'.role u = .null i) :
    v.role u = .null i ∨ (u = t ∧ v.role t = .entry i true) := by
  rcases eq_or_ne u t with rfl | hu
  · cases hmove with
    | stay => exact .inl hr
    | turn hlive hf hrole =>
      rw [role_go_self] at hr
      rcases hrole with hr' | hr' <;> rw [hr'] at hr
      · cases hr
      · exact .inl hr
    | free hpc | skip hpc =>
      rw [role_go_self] at hr
      cases hr
      exact .inr ⟨rfl,congrArg Pc.role hpc⟩
    | fork => simp [View.role,View.fork,Pc.role] at hr
    | _ =>
      rw [role_go_self] at hr
      cases hr
  · rcases threads_move hmove h.core hu with hth | hdead | ⟨f,-,rfl,rfl⟩
    · rw [View.role,hth] at hr
      exact .inl hr
    · have hother : v'.role u ≠ .other := fun heq => by rw [heq] at hr; cases hr
      rw [Pc.live_of_role hother] at hdead
      cases hdead
    · rw [role_go_ne _ _ hu,role_go_self] at hr
      cases hr

theorem Kin.move (hmove : Move v t v')
    (hfree : ∀ i n hh, (v.threads t).pc = .reapFree i → v.slot i = some (n, hh) →
      (v.threads t).proc ≠ n ∧ ∀ u, u ≠ t → ¬ v.Holds u n)
    (hseen : ∀ i n hh, (v.threads t).pc = .scan i ∨ (v.threads t).pc = .getRead i →
      v.slot i = some (n, hh) → hh ≠ .freed)
    (hfresh : ∀ f i, (v.threads t).pc = .cpChild .table f i → v.table (v.ids f.temp).1 = none ∧
      ∀ j c, v.table j = some c → (v.ids c).2 ≠ (v.ids f.temp).1) : Kin v' where
  core := h.core.move hmove
  listed i n hh hs := h.listed_move hmove (fun f i hpc => (hfresh f i hpc).1) hs
  kin i j n b hh hb hn hppid := h.kin_move hmove hfresh hb hn hppid
  owns u := by
    rcases eq_or_ne u t with rfl | hu
    · exact ⟨h.live_self hmove (fun i n hh hpc hs => (hfree i n hh hpc hs).1)
        fun f i hpc => (hfresh f i hpc).1,h.fits_self hmove hseen⟩
    · exact h.owns_other hmove hu (fun i n hh hpc hs => (hfree i n hh hpc hs).2 u hu)
        fun f i hpc => (hfresh f i hpc).1
  null u u' i hu hu' := by
    have hclash : ∀ w, v.role w = .null i → v.role t ≠ .entry i true := fun w hw ht => by
      obtain ⟨m,hm⟩ := h.fits hw
      exact (h.entry_present ht hm).1 rfl
    rcases h.null_origin hmove hu with hu | ⟨rfl,hu⟩
    · rcases h.null_origin hmove hu' with hu' | ⟨rfl,hu'⟩
      · exact h.null u u' i hu hu'
      · exact absurd hu' (hclash u hu)
    · rcases h.null_origin hmove hu' with hu' | ⟨rfl,-⟩
      · exact absurd hu (hclash u' hu')
      · rfl

theorem Kin.scribble {c : Nat} {x : Int × Int} (hfree : v.alloc c = false) : Kin (v.setIds c x) := by
  have hids : ∀ d, v.alloc d = true → (v.setIds c x).ids d = v.ids d := by
    intro d hd
    have hdc : d ≠ c := by
      rintro rfl
      rw [hfree] at hd
      cases hd
    exact update_of_ne hdc _ _
  have hst : ∀ n, Stays v (v.setIds c x) n := fun n =>
    ⟨rfl,fun d ha hp => ⟨ha,hp,hids d ha⟩,fun i hp => ⟨rfl,hp⟩⟩
  refine ⟨h.core.frame,fun i n hh hs => ?_,h.kin,fun u => ?_,h.null⟩
  · obtain ⟨hpid,hcell⟩ := h.listed i n hh hs
    refine ⟨hpid,fun hne => ?_⟩
    obtain ⟨d,htab,ha,hp,hppid⟩ := hcell hne
    exact ⟨d,htab,ha,hp,by rw [hids d ha]; exact hppid⟩
  · exact (h.owns u).frame rfl (fun _ _ _ => rfl) (fun n _ => hst n) fun _ _ => rfl

end Moves

theorem kin_boot (mem : Nat → Process) : Kin (boot mem).view := by
  have hslot : ∀ i n h, (boot mem).view.slot i = some (n, h) → i = minpid ∧ n = 0 ∧ h = .sound := by
    intro i n h hs
    rcases eq_or_ne i minpid with rfl | hne
    · simp only [State.view,boot,update_self,Option.some.injEq,Prod.mk.injEq] at hs
      exact ⟨rfl,hs.1.symm,hs.2.symm⟩
    · simp [State.view,boot,update_of_ne hne] at hs
  have hidle : ∀ u, u ≠ 0 → ((boot mem).view.threads u).pc.live = false := by
    intro u hne
    simp [State.view,boot,update_of_ne hne,Pc.live]
  refine ⟨core_boot mem,fun i n h hs => ?_,fun i j n b h hi hj hppid => ?_,fun u => ?_,
    fun u u' i hu => ?_⟩
  · obtain ⟨rfl,rfl,rfl⟩ := hslot i n h hs
    refine ⟨rfl,fun _ => ⟨0,?_,?_,rfl,?_⟩⟩ <;> simp [State.view,boot,bootProcess]
  · obtain ⟨h',-,hs⟩ := hj
    obtain ⟨rfl,rfl,-⟩ := hslot i b h hi
    obtain ⟨rfl,rfl,-⟩ := hslot j n h' hs
    simp [State.view,boot,minpid] at hppid
  · rcases eq_or_ne u 0 with rfl | hne
    · exact ⟨fun _ => ⟨rfl,.sound,by decide,by simp [State.view,boot]⟩,trivial⟩
    · exact .idle (hidle u hne)
  · rcases eq_or_ne u 0 with rfl | hne
    · cases hu
    · have hother : (boot mem).view.role u ≠ .other := fun heq => by rw [heq] at hu; cases hu
      exact absurd (Pc.live_of_role hother) (by rw [hidle u hne]; decide)

theorem Kin.step {s s' : State} {act : Act} (h : Kin s.view) (hun : Unshared s act)
    (hfresh : FreshPid s act) (hstep : step s act = some s') : Kin s'.view := by
  cases act with
  | thread t choice =>
    refine h.move (move_of_step hstep) hun.frees hun.sees fun f i hpc => ?_
    have hpc' : (s.threads t).pc = .cpChild .table f i := hpc
    simp only [FreshPid,hpc'] at hfresh
    exact hfresh
  | scribble c p =>
    obtain ⟨hfree,hv⟩ := view_of_scribble hstep
    rw [hv]
    exact h.scribble hfree
  | overrun => exact hun.elim

theorem kin_along {mem : Nat → Process} {acts : List Act} {s : State}
    (hok : Run.Along step (fun s act => Unshared s act ∧ FreshPid s act) (boot mem) acts)
    (hrun : Run.exec step (boot mem) acts = some s) : Kin s.view :=
  Run.invariant (I := fun s => Kin s.view) (fun _ _ _ h hok hstep => h.step hok.1 hok.2 hstep)
    (kin_boot mem) hok hrun

theorem Kin.ownChildren {s : State} (h : Kin s.view) : OwnChildren s := by
  have hpoint : ∀ {t w}, s.view.role t = .point w true → s.alloc w.child = true ∧
      s.procOf w.child = w.proc ∧ (s.life w.proc).parent = (s.threads t).proc := by
    intro t w hr
    obtain ⟨hp,htab,hparent⟩ := h.fits hr
    obtain ⟨ha,hproc,-⟩ := h.cell hp htab
    exact ⟨ha,hproc,hparent rfl⟩
  refine ⟨fun t w hpc => ?_,fun t w x hpc => ?_,fun t i n hh hpc hs => ?_⟩
  · rcases hpc with hpc | hpc <;> exact hpoint (congrArg Pc.role hpc)
  · exact (hpoint (congrArg Pc.role hpc)).2.2
  · exact (h.entry_present (congrArg Pc.role hpc) hs).2 rfl

def adoptedOrphan : List Act :=
  forkWhole 0 1 1 2 ++ forkWhole 1 2 2 3 ++ forkWhole 2 3 3 4 ++ [.thread 2 (.exit 0)] ++
    runs 2 412 ++ [.thread 1 (.exit 0)] ++ runs 1 416 ++ forkWhole 0 4 4 3 ++
    [.thread 3 (.exit 7)] ++ runs 3 2 ++ [.thread 4 (.waitpid 104 0 false)] ++ runs 4 10

def freshBelow (s : State) : Act → Bool
  | .thread t _ =>
    match (s.threads t).pc with
    | .cpChild .table f _ => s.table (s.mem f.temp).pid = none &&
        (List.range s.next).all fun n => (s.table (s.life n).pid).all fun c =>
          (s.mem c).ppid ≠ (s.mem f.temp).pid
    | _ => true
  | _ => true

theorem Kin.freshPid {s : State} {act : Act} (h : Kin s.view) (hact : freshBelow s act = true) :
    FreshPid s act := by
  cases act with
  | scribble | overrun => trivial
  | thread t choice =>
    simp only [FreshPid]
    split
    · rename_i f i hpc
      simp only [freshBelow,hpc,Bool.and_eq_true,decide_eq_true_eq,List.all_eq_true,
        List.mem_range] at hact
      refine ⟨hact.1,fun j c htab => ?_⟩
      obtain ⟨n,hh,hs⟩ := h.core.slot_of_table (v := s.view) htab
      have hpid : (s.life n).pid = j := (h.listed j n hh hs).pid
      simpa [hpid,htab] using hact.2 n (h.core.old j n hh hs)
    · trivial

theorem own_children_conditions {mem : Nat → Process} {acts : List Act} {bound : Nat}
    (hbound : 0 < bound)
    (hchk : Run.check step (fun s act => unsharedBelow bound s act && freshBelow s act) (boot mem)
      acts = true) :
    Run.Along step (fun s act => Unshared s act ∧ FreshPid s act) (boot mem) acts := by
  have hconds : ∀ s act, Below s.view bound ∧ Kin s.view →
      (unsharedBelow bound s act && freshBelow s act) = true →
      Unshared s act ∧ FreshPid s act := fun s act ⟨hb,hk⟩ hact =>
    ⟨unshared_of_below hb (Bool.and_eq_true_iff.mp hact).1,
      hk.freshPid (Bool.and_eq_true_iff.mp hact).2⟩
  refine Run.along_imp (I := fun s => Below s.view bound ∧ Kin s.view)
    (fun s act s' hi hact hstep => ?_) hconds ⟨below_boot mem hbound,kin_boot mem⟩
    (Run.along_of_check hchk)
  obtain ⟨hun,hfresh⟩ := hconds s act hi hact
  have hbelow := (Bool.and_eq_true_iff.mp (Bool.and_eq_true_iff.mp hact).1).1
  exact ⟨hi.1.step hbelow hstep,hi.2.step hun hfresh hstep⟩

def waitThenReap : List Act :=
  forkWhole 0 1 1 2 ++ [.thread 1 (.exit 7)] ++ runs 1 410 ++ [.thread 0 (.waitpid 102 0 false)] ++
    runs 0 11 ++ [.thread 0 (.exit 0)] ++ runs 0 12

end OS161.Proc
