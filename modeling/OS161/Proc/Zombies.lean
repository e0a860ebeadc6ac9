import OS161.Proc.Course
import OS161.Proc.Freed

namespace OS161.Proc

open Function

def Pc.window : Pc → Option Wait
  | .cvLoad w | .cvHold w _ | .cvSleep w _ => some w
  | _ => none

def Pc.bound : Pc → Option (Wait × Nat)
  | .cvHold w cv | .cvSleep w cv | .cvAsleep w cv => some (w, cv)
  | _ => none

def Announced (s : State) : Act → Prop
  | .thread t choice => choice ≠ .ret ∧
    match (s.threads t).pc with
    | .exitSignal _ => ∀ u w, (s.threads u).pc.window = some w → w.child ≠ (s.threads t).arrayPtr
    | .ppidNe w => ∃ i h, s.slot i = some (w.proc, h) ∧ h ≠ .freed ∧ s.table i = some w.child
    | _ => True
  | _ => True

structure Told (s : State) : Prop where
  zombie : ∀ t, (s.threads t).pc = .zombie →
    Over s (s.threads t).proc ∨ (s.life (s.threads t).proc).stage = .gone
  stopped : ∀ i n h c, s.slot i = some (n, h) → s.table i = some c → Over s n → h ≠ .freed →
    (s.mem c).status = .stop
  woken : ∀ i n c, s.slot i = some (n, .sound) → s.table i = some c → Over s n →
    ∀ u, (u, .cv (s.mem c).arrayCv) ∉ s.sleepers
  waits : ∀ u cv, (u, .cv cv) ∈ s.sleepers → ∃ i n c, s.slot i = some (n, .sound) ∧
    s.table i = some c ∧ (s.mem c).arrayCv = cv ∧ ¬ Over s n

def Signalled (s : State) (n : Nat) : Prop :=
  (∃ u, (s.threads u).proc = n ∧ (s.threads u).pc.stand.closing = true) ∨ Over s n

structure Accepts (s : State) (u c : Nat) : Prop where
  listed : ∃ i n, s.slot i = some (n, .sound) ∧ s.table i = some c
  ppid : (s.mem c).ppid = (s.threads u).pid

structure Waiters (s : State) : Prop where
  zombie : ∀ t, (s.threads t).pc = .zombie →
    Over s (s.threads t).proc ∨ (s.life (s.threads t).proc).stage = .gone
  accepts : ∀ u w, (s.threads u).pc.accepted = some w → Accepts s u w.child
  bound : ∀ u w cv, (s.threads u).pc.bound = some (w, cv) → cv = (s.mem w.child).arrayCv
  asleep : ∀ u cv, (u, .cv cv) ∈ s.sleepers → ∃ w, (s.threads u).pc = .cvAsleep w cv
  nodup : (s.sleepers.map (·.1)).Nodup
  window : ∀ u w i n, (s.threads u).pc.window = some w → s.slot i = some (n, .sound) →
    s.table i = some w.child → ¬ Signalled s n
  told : ∀ u w cv i n, (s.threads u).pc = .cvAsleep w cv → (u, .cv cv) ∈ s.sleepers →
    s.slot i = some (n, .sound) → s.table i = some w.child → ¬ Signalled s n

theorem Pc.accepted_of_window {pc : Pc} {w : Wait} (h : pc.window = some w) : pc.accepted = some w := by
  cases pc <;> first | exact h | cases h

theorem Pc.accepted_of_bound {pc : Pc} {w : Wait} {cv : Nat} (h : pc.bound = some (w, cv)) :
    pc.accepted = some w := by
  cases pc <;> first | (cases h; rfl) | cases h

theorem Pc.live_of_accepted {pc : Pc} {w : Wait} (h : pc.accepted = some w) : pc.live = true := by
  cases pc <;> first | rfl | cases h

theorem Pc.accepted_of_forking {pc : Pc} {x : Fork × Nat} (h : pc.forking = some x) :
    pc.accepted = none := by
  cases pc <;> first | rfl | cases h

section Facts
variable {s s' : State} {t : Nat} {choice : Choice}

theorem Effect.turned (he : Effect s t choice s') {w : Wait}
    (hacc : (s'.threads t).pc.accepted = some w) :
    ∃ lock z cs pc n, Turn s t z cs pc ∧
      s' = (State.resync { s with n := n } lock z cs).setPc t pc := by
  have hno : ∀ {s₁ : State} {pc : Pc}, pc.accepted = none →
      ((s₁.setPc t pc).threads t).pc.accepted ≠ some w := fun hx => by
    rw [State.threads_setPc_self,hx]
    exact nofun
  cases he with
  | turn hturn => exact ⟨_,_,_,_,_,hturn,rfl⟩
  | fork => simp [startFork,Pc.accepted] at hacc
  | write _ _ hpc | enrol _ hpc => exact absurd hacc (hno (Pc.accepted_of_forking hpc.choose_spec))
  | _ => exact absurd hacc (hno rfl)

theorem Queued.sublist {pc : Pc} {z : List (Nat × Chan)} (hq : Queued s t pc z) :
    z.Sublist s.sleepers ∨ ∃ chan, z.Sublist (s.sleepers ++ [(t, chan)]) ∧
      ∀ cv, chan = .cv cv → ∃ w, pc = .cvAsleep w cv := by
  cases hq with
  | keep => exact .inl (List.Sublist.refl _)
  | release => exact .inl List.filter_sublist
  | lock => exact .inr ⟨.lock,List.Sublist.refl _,nofun⟩
  | cv hpc =>
    refine .inr ⟨.cv _,List.filter_sublist.append (List.Sublist.refl _),fun cv' heq => ?_⟩
    cases heq
    exact ⟨_,hpc⟩

theorem Effect.queue (he : Effect s t choice s') :
    s'.sleepers.Sublist s.sleepers ∨ ∃ chan, s'.sleepers.Sublist (s.sleepers ++ [(t, chan)]) ∧
      ∀ cv, chan = .cv cv → ∃ w, (s'.threads t).pc = .cvAsleep w cv := by
  cases he with
  | turn hturn =>
    refine hturn.queued.sublist.imp id fun ⟨chan,hsub,hcv⟩ => ⟨chan,hsub,fun cv heq => ?_⟩
    rw [State.threads_setPc_self]
    exact hcv cv heq
  | signal => exact .inl List.eraseP_sublist
  | retire => exact .inl List.filter_sublist
  | claim | null =>
    rw [reapStage_life]
    exact .inl (List.Sublist.refl _)
  | _ => exact .inl (List.Sublist.refl _)

theorem Course.signalled (hc : Course s) {n : Nat} (hs : Signalled s n) :
    (s.life n).phase ≠ .running := by
  rcases hs with ⟨u,hproc,hclose⟩ | hover
  · exact hproc ▸ hc.closing u hclose
  · exact hc.past n hover

theorem step_exitSignal {cv : Nat} (hpc : (s.threads t).pc = .exitSignal cv)
    (hstep : step s (.thread t choice) = some s') :
    s'.sleepers = (s.wakeupSingle (.cv cv)).sleepers := by
  obtain ⟨-,hmove⟩ := threadStep_cases hstep
  rw [hpc] at hmove
  rcases hmove with ⟨hx,-⟩ | ⟨f,x,hx,-⟩ | ⟨f,run,ok,hx,-⟩ | ⟨-,hs⟩
  · cases hx
  · cases hx
  · cases run <;> cases hx
  · simp only [runStep] at hs
    split at hs <;> cases hs
    rfl

variable (A : Agree s.forget)
include A

theorem Effect.signalled_back (he : Effect s t choice s') (hc : Course s)
    (htidy : Tidy s (.thread t choice)) (hret : choice ≠ .ret) {n : Nat} (hs : Signalled s' n) :
    Signalled s n ∨ ∃ cv, (s.threads t).pc = .exitSignal cv ∧ n = (s.threads t).proc := by
  rcases hs with ⟨u,hproc,hclose⟩ | hover
  · rcases eq_or_ne u t with rfl | hne
    · obtain ⟨pc,hth,-⟩ := he.self A
      rw [hth] at hproc
      rcases he.closing hret hclose with hx | ⟨cv,hpc⟩
      · exact .inl (.inl ⟨u,hproc,hx⟩)
      · exact .inr ⟨cv,hpc,hproc.symm⟩
    · rcases he.others A hne with heq | ⟨-,hdead | ⟨-,huser⟩⟩
      · rw [heq] at hproc hclose
        exact .inl (.inl ⟨u,hproc,hclose⟩)
      · rw [Stand.live_of_closing hclose] at hdead
        cases hdead
      · rw [huser] at hclose
        cases hclose
  · rcases he.over_back A htidy hover with hold | ⟨hst,hpc⟩
    · exact .inl (.inr hold)
    · exact .inl (.inl ⟨t,(hc.tied n t hst).2,by rw [hpc]; rfl⟩)

theorem Agree.reaper_ppid {i : Int} {n c : Nat} {hh h₁ : Health} (hslot : s.slot i = some (n, hh))
    (hfr : hh ≠ .freed) (htab : s.table i = some c)
    (hr : (s.threads t).pc.reaping = some (i, h₁)) : (s.mem c).ppid = (s.threads t).pid := by
  obtain ⟨m,hm,-,hpp⟩ := (A.threads t).reap i h₁ ((Pc.reaping_forget _).trans hr)
  have hmn : m = n := (Prod.mk.inj (Option.some.inj (hm.symm.trans hslot))).1
  obtain ⟨d,hd⟩ := A.entry i n hh hslot
  rw [← Option.some.inj (hd.table.symm.trans htab)]
  exact (hd.ppid hfr).trans (hmn ▸ hpp)

theorem Agree.sound_of_ppid {i : Int} {n c u : Nat} {hh : Health} (hslot : s.slot i = some (n, hh))
    (hfr : hh ≠ .freed) (htab : s.table i = some c) (hlive : (s.threads u).pc.live = true)
    (hidle : (s.threads u).pc.reaping = none) (hppid : (s.mem c).ppid = (s.threads u).pid) :
    hh = .sound := by
  by_contra hne
  obtain ⟨d,hd⟩ := A.entry i n hh hslot
  obtain ⟨v,hv⟩ := hd.broken hne
  obtain ⟨j,h₁,hr,hj⟩ := A.reaper hv
  obtain ⟨e,he⟩ := A.entry j n h₁ hj
  have hij : j = i := he.pid.symm.trans hd.pid
  have hpid := (A.reaper_ppid hslot hfr htab (hij ▸ hr)).symm.trans hppid
  have hvu := A.pid_inj ((Pc.live_forget _).trans (Pc.live_of_reaping hr))
    ((Pc.live_forget _).trans hlive) hpid
  rw [hvu,hidle] at hr
  cases hr

theorem Accepts.kept {u c : Nat} {w : Wait} (h : Accepts s u c) (he : Effect s t choice s')
    (htidy : Tidy s (.thread t choice)) (hne : u ≠ t) (hacc : (s.threads u).pc.accepted = some w)
    {i : Int} {n : Nat} (hslot : s.slot i = some (n, .sound)) (htab : s.table i = some c) :
    s'.slot i = some (n, .sound) ∧ s'.table i = some c := by
  have hnot : ∀ h₁, (s.threads t).pc.reaping ≠ some (i, h₁) := by
    intro h₁ hr
    have hpid := h.ppid.symm.trans (A.reaper_ppid hslot nofun htab hr)
    exact hne (A.pid_inj ((Pc.live_forget _).trans (Pc.live_of_accepted hacc))
      ((Pc.live_forget _).trans he.live) hpid)
  have hshow := he.shows i
  generalize s'.table i = x at hshow ⊢
  generalize s'.slot i = y at hshow ⊢
  cases hshow with
  | same => exact ⟨hslot,htab⟩
  | mark hpc =>
    rcases hpc with hpc | hpc
    · exact absurd (by rw [hpc]; rfl) (hnot .sound)
    · exact absurd (by rw [hpc]; rfl) (hnot .cvGone)
  | clear hpc => exact absurd (by rw [hpc]; rfl) (hnot .freed)
  | enter hpc hi =>
    simp only [Tidy,hpc] at htidy
    rw [hi,htidy] at htab
    cases htab

theorem Waiters.accepts_kept (h : Waiters s) (he : Effect s t choice s')
    (htidy : Tidy s (.thread t choice)) (hok : Announced s (.thread t choice)) {u : Nat} {w : Wait}
    (hacc : (s'.threads u).pc.accepted = some w) : Accepts s' u w.child := by
  rcases eq_or_ne u t with rfl | hne
  · obtain ⟨lock,z,cs,pc,a,hturn,rfl⟩ := he.turned hacc
    rw [State.threads_setPc_self] at hacc
    have hsame : ∀ c, Accepts s u c → Accepts
        ((State.resync { s with n := a } lock z cs).setPc u pc) u c := fun c hx =>
      ⟨hx.listed,by rw [State.threads_setPc_self]; exact hx.ppid⟩
    have harr := hturn.arrives
    refine hsame _ ?_
    cases pc with
    | ppidEq w' =>
      cases hacc
      obtain ⟨hpc,hppid⟩ := harr
      obtain ⟨-,hok⟩ := hok
      simp only [hpc] at hok
      obtain ⟨i,hh,hslot,hfr,htab⟩ := hok
      have hsound := A.sound_of_ppid hslot hfr htab hturn.live (by rw [hpc]; rfl) hppid
      exact ⟨⟨i,w.proc,hsound ▸ hslot,htab⟩,hppid⟩
    | statusTest w' | stopRead w' | reacquire w' | wokenRead w' =>
      cases hacc
      exact h.accepts u w harr
    | cvLoad w' | cvHold w' cv =>
      cases hacc
      exact h.accepts u w (by rw [harr.1]; rfl)
    | cvSleep w' cv | cvAsleep w' cv =>
      cases hacc
      exact h.accepts u w (by rw [show (s.threads u).pc = _ from harr]; rfl)
    | _ => cases hacc
  · have hth := he.unmoved A hne (Pc.live_of_accepted hacc) fun hx => by rw [hx] at hacc; cases hacc
    rw [hth] at hacc
    have hold := h.accepts u w hacc
    obtain ⟨i,n,hslot,htab⟩ := hold.listed
    refine ⟨⟨i,n,hold.kept A he htidy hne hacc hslot htab⟩,?_⟩
    rw [hth,(he.listed_kept A hslot nofun htab).2.1,hold.ppid]

theorem Waiters.bound_kept (h : Waiters s) (he : Effect s t choice s') {u cv : Nat} {w : Wait}
    (hb : (s'.threads u).pc.bound = some (w, cv)) : cv = (s'.mem w.child).arrayCv := by
  have hacc := Pc.accepted_of_bound hb
  rcases eq_or_ne u t with rfl | hne
  · obtain ⟨lock,z,cs,pc,a,hturn,rfl⟩ := he.turned hacc
    rw [State.threads_setPc_self] at hb
    have harr := hturn.arrives
    cases pc with
    | cvHold w' cv' =>
      cases hb
      exact harr.2
    | cvSleep w' cv' | cvAsleep w' cv' =>
      cases hb
      exact h.bound u w cv (by rw [show (s.threads u).pc = _ from harr]; rfl)
    | _ => cases hb
  · have hth := he.unmoved A hne (Pc.live_of_accepted hacc) fun hx => by rw [hx] at hb; cases hb
    rw [hth] at hb hacc
    obtain ⟨i,n,hslot,htab⟩ := (h.accepts u w hacc).listed
    rw [(he.listed_kept A hslot nofun htab).2.2]
    exact h.bound u w cv hb

theorem Waiters.asleep_kept (h : Waiters s) (he : Effect s t choice s')
    (hawake : s.asleep t = false) {u cv : Nat} (hin : (u, .cv cv) ∈ s'.sleepers) :
    ∃ w, (s'.threads u).pc = .cvAsleep w cv := by
  have hold : (u, .cv cv) ∈ s.sleepers → ∃ w, (s'.threads u).pc = .cvAsleep w cv := by
    intro hx
    obtain ⟨w,hpc⟩ := h.asleep u cv hx
    have hne : u ≠ t := by
      rintro rfl
      rw [State.asleep,List.any_eq_false] at hawake
      exact hawake _ hx (by simp)
    exact ⟨w,by rw [he.other A hne (by rw [hpc]; rfl),hpc]⟩
  rcases he.queue with hsub | ⟨chan,hsub,hcv⟩
  · exact hold (hsub.subset hin)
  · rcases List.mem_append.mp (hsub.subset hin) with hx | hx
    · exact hold hx
    · obtain ⟨rfl,hchan⟩ := Prod.mk.inj (List.mem_singleton.mp hx)
      exact hcv cv hchan.symm

omit A in
theorem Waiters.nodup_kept (h : Waiters s) (he : Effect s t choice s') (hawake : s.asleep t = false) :
    (s'.sleepers.map (·.1)).Nodup := by
  rcases he.queue with hsub | ⟨chan,hsub,-⟩
  · exact h.nodup.sublist (hsub.map _)
  · refine List.Nodup.sublist (hsub.map _) ?_
    rw [List.map_append,List.nodup_append]
    refine ⟨h.nodup,by simp,fun a ha b hb heq => ?_⟩
    obtain ⟨x,hx,rfl⟩ := List.mem_map.mp ha
    simp only [List.map_cons,List.map_nil,List.mem_singleton] at hb
    rw [State.asleep,List.any_eq_false] at hawake
    exact hawake x hx (by simp [heq,hb])

theorem Effect.zombie_back (he : Effect s t choice s') {u : Nat} (hne : u ≠ t)
    (hz : (s'.threads u).pc = .zombie) : s'.threads u = s.threads u := by
  have hnew : ∀ {v : Nat} (th : Thread) {th' : Thread}, th.pc ≠ .zombie →
      (update (update s.threads v th) t th' u).pc = .zombie →
      update (update s.threads v th) t th' u = s.threads u := by
    intro v th th' hth hx
    rw [update_of_ne hne] at hx ⊢
    rcases eq_or_ne u v with rfl | huv
    · rw [update_self] at hx
      exact absurd hx hth
    · exact update_of_ne huv _ _
  cases he with
  | fork => exact hnew _ nofun hz
  | enrol hfork _ hth => exact hnew _ (by rw [hth,(A.made hfork).thread]; exact nofun) hz
  | discard | abandon => exact hnew { s.threads _ with pc := .unborn } nofun hz
  | start => exact hnew { s.threads _ with pc := .user } nofun hz
  | claim | null =>
    rw [reapStage_life]
    exact State.threads_setPc_ne _ hne _
  | _ => exact State.threads_setPc_ne _ hne _

theorem Waiters.zombie_kept (h : Waiters s) (he : Effect s t choice s')
    (htidy : Tidy s (.thread t choice)) {u : Nat} (hz : (s'.threads u).pc = .zombie) :
    Over s' (s'.threads u).proc ∨ (s'.life (s'.threads u).proc).stage = .gone := by
  rcases eq_or_ne u t with rfl | hne
  · obtain ⟨pc,hth,hlive | ⟨-,hend⟩⟩ := he.self A
    · rw [hth] at hz
      rw [show pc = .zombie from hz] at hlive
      cases hlive
    · rw [hth]
      exact .inl (.inl hend)
  · have hth := he.zombie_back A hne hz
    rw [hth] at hz ⊢
    have hnext := (he.ages (s.threads u).proc).next A htidy
    have hold := h.zombie u hz
    unfold Over at hold ⊢
    generalize (s'.life (s.threads u).proc).stage = st' at hnext ⊢
    generalize (s.life (s.threads u).proc).stage = st at hnext hold
    cases hnext with
    | stay => exact hold
    | claim => exact .inl (.inr ⟨t,rfl⟩)
    | gone => exact .inr rfl
    | ended => exact .inl (.inl rfl)
    | born | lost | start => rcases hold with (hx | ⟨v,hx⟩) | hx <;> cases hx

theorem Agree.same_entry {i j : Int} {n m c : Nat} (hi : s.slot i = some (n, .sound))
    (hic : s.table i = some c) (hj : s.slot j = some (m, .sound)) (hjc : s.table j = some c) :
    i = j ∧ n = m := by
  have hnm : n = m := (A.listed_alloc hi nofun hic).2.symm.trans (A.listed_alloc hj nofun hjc).2
  obtain ⟨d,hd⟩ := A.entry i n .sound hi
  obtain ⟨e,he⟩ := A.entry j m .sound hj
  refine ⟨hd.pid.symm.trans ?_,hnm⟩
  rw [hnm]
  exact he.pid

theorem Waiters.entry_back (h : Waiters s) (A' : Agree s'.forget) (he : Effect s t choice s')
    (htidy : Tidy s (.thread t choice)) {u n : Nat} {w : Wait} {i : Int} (hne : u ≠ t)
    (hacc : (s.threads u).pc.accepted = some w) (hslot : s'.slot i = some (n, .sound))
    (htab : s'.table i = some w.child) :
    s.slot i = some (n, .sound) ∧ s.table i = some w.child := by
  have hold := h.accepts u w hacc
  obtain ⟨j,m,hj,hjc⟩ := hold.listed
  obtain ⟨hj',hjc'⟩ := hold.kept A he htidy hne hacc hj hjc
  obtain ⟨rfl,rfl⟩ := A'.same_entry hslot htab hj' hjc'
  exact ⟨hj,hjc⟩

theorem Waiters.window_kept (h : Waiters s) (A' : Agree s'.forget) (hc : Course s)
    (he : Effect s t choice s') (htidy : Tidy s (.thread t choice))
    (hok : Announced s (.thread t choice)) {u n : Nat} {w : Wait} {i : Int}
    (hw : (s'.threads u).pc.window = some w) (hslot : s'.slot i = some (n, .sound))
    (htab : s'.table i = some w.child) : ¬ Signalled s' n := by
  have hacc := Pc.accepted_of_window hw
  have hback := fun hs => he.signalled_back A hc htidy hok.1 (n := n) hs
  intro hs
  rcases eq_or_ne u t with rfl | hne
  · obtain ⟨lock,z,cs,pc,a,hturn,rfl⟩ := he.turned hacc
    rw [State.threads_setPc_self] at hw
    have harr := hturn.arrives
    have hstill : (s.threads u).pc.window = some w → False := fun hx => by
      rcases hback hs with hold | ⟨cv,hpc,-⟩
      · exact h.window u w i n hx hslot htab hold
      · rw [hpc] at hx
        cases hx
    cases pc with
    | cvLoad w' =>
      cases hw
      rcases hback hs with hold | ⟨cv,hpc,-⟩
      · exact harr.2 (hc.stop i n .sound w.child hslot nofun htab (hc.signalled hold))
      · cases hpc.symm.trans harr.1
    | cvHold w' cv =>
      cases hw
      exact hstill (by rw [harr.1]; rfl)
    | cvSleep w' cv =>
      cases hw
      exact hstill (by rw [show (s.threads u).pc = _ from harr]; rfl)
    | _ => cases hw
  · have hth := he.unmoved A hne (Pc.live_of_accepted hacc) fun hx => by rw [hx] at hw; cases hw
    rw [hth] at hw hacc
    obtain ⟨hslot,htab⟩ := h.entry_back A A' he htidy hne hacc hslot htab
    rcases hback hs with hold | ⟨cv,hpc,rfl⟩
    · exact h.window u w i n hw hslot htab hold
    · have hsig := hok.2
      simp only [hpc] at hsig
      exact hsig u w hw (A.own_slot he.live hslot htab).2

theorem Waiters.sleeper_inj (h : Waiters s) {u v cv : Nat} (hu : (u, .cv cv) ∈ s.sleepers)
    (hv : (v, .cv cv) ∈ s.sleepers) : u = v := by
  have hof : ∀ {x : Nat}, (x, .cv cv) ∈ s.sleepers → ∃ c, (s.threads x).pc.live = true ∧
      s.cvs cv = some c ∧ (s.mem c).ppid = (s.threads x).pid := by
    intro x hx
    obtain ⟨w,hpc⟩ := h.asleep x cv hx
    have hacc := h.accepts x w (by rw [hpc]; rfl)
    obtain ⟨i,n,hslot,htab⟩ := hacc.listed
    obtain ⟨d,hd⟩ := A.entry i n .sound hslot
    have hdc : d = w.child := Option.some.inj (hd.table.symm.trans htab)
    refine ⟨w.child,by rw [hpc]; rfl,?_,hacc.ppid⟩
    rw [h.bound x w cv (by rw [hpc]; rfl),← hdc]
    exact hd.cv rfl
  obtain ⟨c,hlu,hcu,hpu⟩ := hof hu
  obtain ⟨d,hlv,hcv,hpv⟩ := hof hv
  obtain rfl := Option.some.inj (hcu.symm.trans hcv)
  exact A.pid_inj ((Pc.live_forget _).trans hlu) ((Pc.live_forget _).trans hlv) (hpu.symm.trans hpv)

theorem Waiters.woken (h : Waiters s) {u cv : Nat} :
    (u, .cv cv) ∉ (s.wakeupSingle (.cv cv)).sleepers := by
  intro hin
  have hold : (u, .cv cv) ∈ s.sleepers := List.eraseP_sublist.subset hin
  obtain ⟨⟨v,chan⟩,l₁,l₂,-,hv,heq,herase⟩ :=
    List.exists_of_eraseP (p := (·.2 = .cv cv)) hold (decide_eq_true rfl)
  obtain rfl : chan = .cv cv := of_decide_eq_true hv
  have huv : u = v := h.sleeper_inj A hold (by rw [heq]; simp)
  subst huv
  have hnodup := h.nodup
  rw [heq,List.map_append,List.map_cons,List.nodup_append,List.nodup_cons] at hnodup
  obtain ⟨-,⟨hout,-⟩,hdisj⟩ := hnodup
  rw [State.wakeupSingle,herase] at hin
  rcases List.mem_append.mp hin with hx | hx
  · exact hdisj u (List.mem_map.mpr ⟨_,hx,rfl⟩) u (by simp) rfl
  · exact hout (List.mem_map.mpr ⟨_,hx,rfl⟩)

theorem Waiters.told_kept (h : Waiters s) (A' : Agree s'.forget) (hc : Course s)
    (hstep : OS161.Proc.step s (.thread t choice) = some s') (htidy : Tidy s (.thread t choice))
    (hok : Announced s (.thread t choice)) {u n cv : Nat} {w : Wait} {i : Int}
    (hpc : (s'.threads u).pc = .cvAsleep w cv) (hin : (u, .cv cv) ∈ s'.sleepers)
    (hslot : s'.slot i = some (n, .sound)) (htab : s'.table i = some w.child) : ¬ Signalled s' n := by
  have he := effect_of_step A hstep
  have hacc : (s'.threads u).pc.accepted = some w := by rw [hpc]; rfl
  have hback := fun hs => he.signalled_back A hc htidy hok.1 (n := n) hs
  intro hs
  rcases eq_or_ne u t with rfl | hne
  · obtain ⟨lock,z,cs,pc,a,hturn,rfl⟩ := he.turned hacc
    rw [State.threads_setPc_self] at hpc
    have harr := hturn.arrives
    rw [show pc = _ from hpc] at harr
    have hwas : (s.threads u).pc = .cvSleep w cv := harr
    rcases hback hs with hold | ⟨cv',hx,-⟩
    · exact h.window u w i n (by rw [hwas]; rfl) hslot htab hold
    · cases hwas.symm.trans hx
  · have hth := he.unmoved A hne (Pc.live_of_accepted hacc) (by rw [hpc]; exact nofun)
    rw [hth] at hpc hacc
    obtain ⟨hslot,htab⟩ := h.entry_back A A' he htidy hne hacc hslot htab
    have hwas : (u, .cv cv) ∈ s.sleepers := by
      rcases he.queue with hsub | ⟨chan,hsub,-⟩
      · exact hsub.subset hin
      · refine (List.mem_append.mp (hsub.subset hin)).resolve_right fun hx => hne ?_
        exact (Prod.mk.inj (List.mem_singleton.mp hx)).1
    rcases hback hs with hold | ⟨cv',hsig,rfl⟩
    · exact h.told u w cv i n hpc hwas hslot htab hold
    · have hcv : cv' = (s.mem (s.threads t).arrayPtr).arrayCv := by
        have := (A.threads t).needs
        rw [show (s.forget.threads t).pc = .exitSignal cv' from congrArg Pc.forget hsig] at this
        exact this
      rw [← (A.own_slot he.live hslot htab).2,← h.bound u w cv (by rw [hpc]; rfl)] at hcv
      rw [step_exitSignal hsig hstep,hcv] at hin
      exact h.woken A hin

theorem Waiters.step {act : Act} (h : Waiters s) (hc : Course s) (htidy : Tidy s act)
    (hok : Announced s act) (hstep : OS161.Proc.step s act = some s') : Waiters s' := by
  cases act with
  | thread t choice =>
    have he := effect_of_step A hstep
    have A' := A.tidy_step htidy hstep
    have hawake := (threadStep_cases hstep).1
    exact ⟨fun _ => h.zombie_kept A he htidy,fun _ _ => h.accepts_kept A he htidy hok,
      fun _ _ _ => h.bound_kept A he,fun _ _ => h.asleep_kept A he hawake,h.nodup_kept he hawake,
      fun _ _ _ _ => h.window_kept A A' hc he htidy hok,
      fun _ _ _ _ _ => h.told_kept A A' hc hstep htidy hok⟩
  | scribble c p =>
    simp only [OS161.Proc.step] at hstep
    split at hstep <;> rename_i hfree
    · cases hstep
    · cases hstep
      have hmem : ∀ u d, Accepts s u d → (s.setMem c p).mem d = s.mem d := by
        intro u d hacc
        obtain ⟨i,n,hslot,htab⟩ := hacc.listed
        refine update_of_ne (fun heq => hfree ?_) _ _
        exact heq ▸ (A.listed_alloc hslot (fun h => by cases h) htab).1
      refine ⟨h.zombie,fun u w hacc => ?_,fun u w cv hb => ?_,h.asleep,h.nodup,h.window,h.told⟩
      · have hold := h.accepts u w hacc
        exact ⟨hold.listed,(congrArg Process.ppid (hmem u _ hold)).trans hold.ppid⟩
      · rw [hmem u _ (h.accepts u w (Pc.accepted_of_bound hb))]
        exact h.bound u w cv hb
  | overrun => exact htidy.elim

theorem Waiters.all_told (h : Waiters s) (hc : Course s) : Told s := by
  refine ⟨h.zombie,fun i n hh c hslot htab hover hfr => hc.stop i n hh c hslot hfr htab (hc.past n hover),
    fun i n c hslot htab hover u hin => ?_,fun u cv hin => ?_⟩
  · obtain ⟨w,hpc⟩ := h.asleep u _ hin
    have hacc := h.accepts u w (by rw [hpc]; rfl)
    obtain ⟨j,m,hj,hjc⟩ := hacc.listed
    obtain ⟨d,hd⟩ := A.entry i n .sound hslot
    obtain ⟨e,he⟩ := A.entry j m .sound hj
    have hdc : d = c := Option.some.inj (hd.table.symm.trans htab)
    have hec : e = w.child := Option.some.inj (he.table.symm.trans hjc)
    have hcv : s.cvs (s.mem c).arrayCv = some c := hdc ▸ hd.cv rfl
    have hcv' : s.cvs (s.mem w.child).arrayCv = some w.child := hec ▸ he.cv rfl
    rw [← h.bound u w _ (by rw [hpc]; rfl),hcv] at hcv'
    exact h.told u w _ i n hpc hin hslot (Option.some.inj hcv' ▸ htab) (.inr hover)
  · obtain ⟨w,hpc⟩ := h.asleep u _ hin
    have hacc := h.accepts u w (by rw [hpc]; rfl)
    obtain ⟨i,n,hslot,htab⟩ := hacc.listed
    exact ⟨i,n,w.child,hslot,htab,(h.bound u w cv (by rw [hpc]; rfl)).symm,
      fun hover => h.told u w cv i n hpc hin hslot htab (.inr hover)⟩

end Facts

theorem waiters_boot (mem : Nat → Process) : Waiters (boot mem) := by
  have hpc := boot_pc mem
  refine ⟨fun u hu => ?_,fun u w hu => ?_,fun u w cv hu => ?_,(fun _ _ h => by cases h),List.nodup_nil,
    fun u w i n hu => ?_,fun u w cv i n hu => ?_⟩
  all_goals rcases hpc u with hx | hx <;> rw [hx] at hu <;> cases hu

theorem zombies_told_along {mem : Nat → Process} {acts : List Act} {s : State}
    (hok : Run.Along step (fun s act => Tidy s act ∧ Announced s act) (boot mem) acts)
    (hrun : Run.exec step (boot mem) acts = some s) : Told s := by
  have hinv : Agree s.forget ∧ Course s ∧ Waiters s := by
    refine Run.invariant (I := fun s => Agree s.forget ∧ Course s ∧ Waiters s)
      (fun s act s' ⟨hA,hcourse,hwaiters⟩ ⟨htidy,hann⟩ hstep => ?_)
      ⟨(agree_boot mem).forget,course_boot mem,waiters_boot mem⟩ hok hrun
    have hret : NoReturn act := by
      cases act with
      | scribble => trivial
      | overrun => exact htidy.elim
      | thread t choice => cases choice <;> first | trivial | exact absurd rfl hann.1
    exact ⟨hA.tidy_step htidy hstep,hcourse.step hA htidy hret hstep,
      hwaiters.step hA hcourse htidy hann hstep⟩
  exact hinv.2.2.all_told hinv.1 hinv.2.1

def announcedBelow (bound : Nat) (s : State) (act : Act) : Bool :=
  act.below bound && match act with
    | .thread t choice => decide (choice ≠ .ret) &&
      match (s.threads t).pc with
      | .exitSignal _ => (List.range bound).all fun u =>
          (s.threads u).pc.window.all fun w => w.child ≠ (s.threads t).arrayPtr
      | .ppidNe w => (s.slot (s.mem w.child).pid).any fun x =>
          x.1 = w.proc && x.2 ≠ .freed && s.table (s.mem w.child).pid = some w.child
      | .reapTest i => (s.slot i).all fun x => (s.life x.1).stage = .ended ||
          (s.table i).all fun c => (s.mem c).ppid ≠ (s.threads t).pid
      | .cpChild .table f _ => s.table (s.mem f.temp).pid = none
      | _ => true
    | .scribble _ _ => true
    | .overrun _ _ => false

theorem announced_of_below {s : State} {act : Act} {bound : Nat} (h : Below s.view bound)
    (hact : announcedBelow bound s act = true) : Tidy s act ∧ Announced s act := by
  obtain ⟨-,hrest⟩ := Bool.and_eq_true_iff.mp hact
  cases act with
  | scribble c p => exact ⟨trivial,trivial⟩
  | overrun => cases hrest
  | thread t choice =>
    obtain ⟨hret,hpc⟩ := Bool.and_eq_true_iff.mp hrest
    refine ⟨?_,of_decide_eq_true hret,?_⟩
    · simp only [Tidy]
      split
      · rename_i i hx
        simp only [hx] at hpc
        intro c n hh htab hslot hppid _
        simpa [hslot,htab,hppid] using hpc
      · rename_i f i hx
        simp only [hx] at hpc
        exact of_decide_eq_true hpc
      · trivial
    · split
      · rename_i cv hx
        simp only [hx] at hpc
        intro u w hw
        have hu : u < bound := h.lt fun heq => by
          rw [show (s.threads u).pc = .unborn from heq] at hw
          cases hw
        have := List.all_eq_true.mp hpc u (List.mem_range.mpr hu)
        rw [hw] at this
        exact of_decide_eq_true this
      · rename_i w hx
        simp only [hx] at hpc
        cases hslot : s.slot (s.mem w.child).pid with
        | none => simp [hslot] at hpc
        | some x =>
          simp only [hslot,Option.any_some,Bool.and_eq_true,decide_eq_true_eq] at hpc
          obtain ⟨⟨hn,hfr⟩,htab⟩ := hpc
          exact ⟨_,x.2,hn ▸ hslot,hfr,htab⟩
      · trivial

def waitThenExit : List Act :=
  forkWhole 0 1 1 2 ++ [.thread 0 (.waitpid 102 0 false)] ++ runs 0 10 ++ [.thread 1 (.exit 7)] ++
    runs 1 410

theorem zombies_told_waiter_woken :
    ∃ s, Run.exec step (boot fun _ => bootProcess 0) waitThenExit = some s ∧
      (s.threads 1).pc = .zombie ∧ s.table 102 = some 1 ∧ (s.mem 1).status = .stop ∧
      (s.threads 0).pc = .cvAsleep ⟨1, 2, true⟩ 1 ∧ s.sleepers = [] ∧ Told s := by
  have hview : ((Run.exec step (boot fun _ => bootProcess 0) waitThenExit).map
      fun s => (((s.threads 1).pc, s.table 102), (s.mem 1).status, (s.threads 0).pc, s.sleepers)) =
      some ((.zombie, some 1), .stop, .cvAsleep ⟨1,2,true⟩ 1, []) := by
    decide +kernel
  obtain ⟨s,hs,heq⟩ := Option.map_eq_some_iff.mp hview
  simp only [Prod.mk.injEq] at heq
  obtain ⟨⟨hpc,htab⟩,hstop,hwaiter,hnone⟩ := heq
  have hchk : Run.check step (announcedBelow 2) (boot fun _ => bootProcess 0) waitThenExit = true := by
    decide +kernel
  have hok := Run.along_imp (I := fun s => Below s.view 2)
    (fun s act s' h hact hstep => h.step (Bool.and_eq_true_iff.mp hact).1 hstep)
    (fun s act h hact => announced_of_below h hact) (below_boot _ (by decide)) (Run.along_of_check hchk)
  exact ⟨s,hs,hpc,htab,hstop,hwaiter,hnone,zombies_told_along hok hs⟩

def waitThenReturn : List Act :=
  forkWhole 0 1 1 2 ++ [.thread 0 (.waitpid 102 0 false)] ++ runs 0 10 ++ [.thread 1 .ret] ++
    runs 1 404

theorem returned_zombie_running :
    ∃ s, Run.exec step (boot fun _ => bootProcess 0) waitThenReturn = some s ∧
      (s.threads 1).pc = .zombie ∧ (s.threads 1).pid = 102 ∧ s.table 102 = some 1 ∧
      (s.mem 1).status = .running ∧ s.sleepers = [(0, .cv (s.mem 1).arrayCv)] ∧ ¬ Told s := by
  have hview : ((Run.exec step (boot fun _ => bootProcess 0) waitThenReturn).map
      fun s => decide ((s.threads 1).pc = .zombie ∧ (s.threads 1).pid = 102 ∧ s.table 102 = some 1 ∧
        (s.mem 1).status = .running ∧ s.sleepers = [(0, .cv (s.mem 1).arrayCv)] ∧
        s.slot 102 = some (2, .sound) ∧ (s.life 2).stage = .ended)) = some true := by
    decide +kernel
  obtain ⟨s,hs,heq⟩ := Option.map_eq_some_iff.mp hview
  obtain ⟨hpc,hpid,htab,hrun,hsleep,hslot,hend⟩ := of_decide_eq_true heq
  refine ⟨s,hs,hpc,hpid,htab,hrun,hsleep,fun htold => ?_⟩
  have hstop := htold.stopped 102 2 .sound 1 hslot htab (.inl hend) nofun
  rw [hrun] at hstop
  cases hstop

end OS161.Proc
