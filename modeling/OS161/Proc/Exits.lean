import OS161.Proc.Forks

namespace OS161.Proc

open Function

structure Revised (s : State) (t : Nat) (p : Process) (l : Life) : Prop where
  ppid : p.ppid = (s.mem (s.threads t).arrayPtr).ppid
  cv : p.arrayCv = (s.mem (s.threads t).arrayPtr).arrayCv
  parent : l.parent = (s.life (s.threads t).proc).parent
  pids : l.pid = (s.life (s.threads t).proc).pid ∧ l.ppid = (s.life (s.threads t).proc).ppid
  stage : l.stage = .alive t ∨ l.stage = .ended
  stop : p.status = .stop → l.phase ≠ .running
  code : l.phase = .exited → l.exitArg = some p.exitcode
  phase : (s.life (s.threads t).proc).phase ≠ .running → l.phase ≠ .running
  exited : (s.life (s.threads t).proc).phase = .exited →
    l.phase = .exited ∧ l.exitArg = (s.life (s.threads t).proc).exitArg

def State.revise (s : State) (t : Nat) (p : Process) (l : Life) : State :=
  (s.setMem (s.threads t).arrayPtr p).setLife (s.threads t).proc l

structure Reaps (s s' : State) (t : Nat) (i : Int) (n : Nat) : Prop where
  thread : ∀ u, u ≠ t → s'.threads u = s.threads u
  sleepers : s'.sleepers = s.sleepers
  life : ∀ m, m ≠ n → s'.life m = s.life m
  slot : ∀ j, j ≠ i → s'.slot j = s.slot j ∧ s'.table j = s.table j
  here : ∀ m hl, s'.slot i = some (m, hl) → m = n
  vacant : s'.table i = none ↔ s'.slot i = none
  next : s'.next = s.next
  alloc : ∀ c, s'.alloc c = true → s.alloc c = true
  kept : ∀ c, s.alloc c = true → s.procOf c ≠ n → s'.alloc c = true ∧
    (s.cvs (s.mem c).arrayCv = some c → s'.cvs (s.mem c).arrayCv = some c)
  mem : s'.mem = s.mem
  procOf : s'.procOf = s.procOf
  stage : ∃ st, s'.life n = { s.life n with stage := st } ∧ (st = .reaping t ∨ st = .gone)

section Own
variable {s : State} {t : Nat} {p : Process} {l : Life} {pc : Pc} (h : Agree s)
include h

theorem Agree.revised {lock : Lock} {z : List (Nat × Chan)} {cs : Nat → Bool}
    (hlive : (s.threads t).pc.live = true)
    (hz : ∀ u cv, (u, .cv cv) ∈ s.sleepers → (u, .cv cv) ∈ z)
    (hr : Revised s t p l) :
    Touches s (((s.revise t p l).resync lock z cs).setPc t pc) t (s.threads t).proc := by
  have hal := (h.threads t).alive hlive
  have hown := h.own_entry hlive
  have hlife : (((s.revise t p l).resync lock z cs).setPc t pc).life (s.threads t).proc = l :=
    update_self _ _ _
  constructor
  case self => exact .inr hlive
  case thread => exact fun u hu _ => State.threads_setPc_ne _ hu _
  case asleep => exact fun u cv _ _ hin _ => .inl (hz u cv hin)
  case next => exact .inl ⟨rfl,hown.old⟩
  case vacant => exact h.vacant
  case owned =>
    intro u hu heq
    rw [hal] at heq
    exact hu (Option.some.inj heq).symm
  case claimed =>
    intro u _
    rw [hlife]
    rcases hr.stage with heq | heq <;> rw [heq] <;> exact ⟨nofun,nofun⟩
  case parent => rw [hlife,hr.parent]; exact h.parents _ hown.old
  case cells =>
    intro c hc hc'
    exact absurd (show s.alloc c = true from hc) (by rw [hc']; decide)
  case newest =>
    intro c d hc _ hc' _
    exact absurd (show s.alloc c = true from hc) (by rw [hc']; decide)
  case life => exact fun n hn => update_of_ne hn _ _
  case slot => exact fun _ _ _ _ => Iff.rfl
  case table => exact fun _ _ _ _ _ => rfl
  case cell =>
    intro c hc hp
    have hcp : c ≠ (s.threads t).arrayPtr := fun heq => hp (by rw [heq,(hown.cell (by decide)).2])
    exact ⟨hc,update_of_ne hcp _ _,id⟩
  case procOf => exact fun _ _ => rfl
  case phase => rw [hlife]; exact hr.phase
  case exited => rw [hlife]; exact hr.exited
  case pid => intro _; rw [hlife]; exact hr.pids.1
  case grown =>
    intro _
    rw [hlife]
    rcases hr.stage with heq | heq <;> rw [heq] <;> rfl

theorem Agree.revise {lock : Lock} {z : List (Nat × Chan)} {cs : Nat → Bool}
    (hlive : (s.threads t).pc.live = true)
    (hz : ∀ u cv, (u, .cv cv) ∈ s.sleepers → (u, .cv cv) ∈ z)
    (hr : Revised s t p l)
    (hself : Local (((s.revise t p l).resync lock z cs).setPc t pc) t) :
    Agree (((s.revise t p l).resync lock z cs).setPc t pc) := by
  have hT : Touches s (((s.revise t p l).resync lock z cs).setPc t pc) t (s.threads t).proc :=
    h.revised hlive hz hr
  have hlife : (((s.revise t p l).resync lock z cs).setPc t pc).life (s.threads t).proc = l :=
    update_self _ _ _
  have hmem : (((s.revise t p l).resync lock z cs).setPc t pc).mem (s.threads t).arrayPtr = p :=
    update_self _ _ _
  have hown := h.own_entry hlive
  have hsame : ∀ c, s.alloc c = true → s.procOf c = (s.threads t).proc →
      c = (s.threads t).arrayPtr := fun c hc hp =>
    h.inj _ _ hc (hown.cell (by decide)).1 (hp.trans (hown.cell (by decide)).2.symm)
  refine h.touch hT (fun i hh hi => ?_) hself (fun u hu hid => .inl ?_) (fun u w _ _ hw hm => ?_)
  · obtain ⟨c,hc⟩ := h.entry i _ hh hi
    have hsound : hh = .sound := by
      by_contra hx
      obtain ⟨u,hu⟩ := hc.broken hx
      rw [(h.threads t).alive hlive] at hu
      cases hu
    obtain ⟨hca,hcp⟩ := hc.cell (by rw [hsound]; decide)
    have hct := hsame c hca hcp
    refine ⟨c,?_⟩
    constructor
    case table => exact hc.table
    case pid => rw [hlife,hr.pids.1]; exact hc.pid
    case old => exact hc.old
    case cell => exact hc.cell
    case cv => intro hx; rw [hct,hmem,hr.cv,← hct]; exact hc.cv hx
    case ppid => intro hx; rw [hct,hmem,hlife,hr.ppid,hr.pids.2,← hct]; exact hc.ppid hx
    case parent =>
      rw [hlife,hr.pids.2,hr.parent,(hT.grown_kept (h.parents _ hown.old).2).2]
      exact hc.parent
    case stop => intro _; rw [hct,hmem,hlife]; exact hr.stop
    case code => intro _; rw [hct,hmem,hlife]; exact hr.code
    case present => rw [hlife]; rcases hr.stage with heq | heq <;> rw [heq] <;> exact ⟨nofun,nofun⟩
    case broken => exact fun hx => absurd hsound hx
  · rw [State.threads_setPc_ne _ hu]
    exact Pc.live_of_idle hid
  · have he := h.waits_entry hw
    have hcell := he.cell (by decide)
    have hslot := hw.slot
    have htable := hw.table
    rw [hm] at hcell hslot htable
    have hct := hsame w.child hcell.1 hcell.2
    refine ⟨?_,?_,?_,?_,?_⟩
    · rw [hlife,hr.pids.1]; exact hslot
    · rw [hlife,hr.pids.1]; exact htable
    · rw [hlife]; exact hr.parent
    · rw [hlife]; rcases hr.stage with heq | heq <;> rw [heq] <;> rfl
    · rw [hct,hmem]; exact hr.cv

theorem Agree.revise_live (hlive : (s.threads t).pc.live = true)
    (hidle : (s.threads t).pc.forking = none ∧ (s.threads t).pc.reaping = none)
    (hr : Revised s t p l) (hst : l.stage = .alive t)
    (hplain : pc.forking = none ∧ pc.waiting = none ∧ pc.reaping = none ∧ ∀ s', Needs s' t pc)
    (hphase : pc.allows l.phase = true)
    (hexit : ∀ code ptr, pc.exiting = some (code, ptr) →
      ptr = (s.threads t).arrayPtr ∧ l.exitArg = some code) :
    Agree ((s.revise t p l).setPc t pc) := by
  have hl := h.threads t
  obtain ⟨hfork,hwait,hreap,hneeds⟩ := hplain
  have hlife : ((s.revise t p l).setPc t pc).life (s.threads t).proc = l :=
    update_self _ _ _
  have hthr : ((s.revise t p l).setPc t pc).threads t = { s.threads t with pc := pc } :=
    State.threads_setPc_self _ _ _
  have hothers : ∀ n, n ≠ (s.threads t).proc →
      ((s.revise t p l).setPc t pc).life n = s.life n := fun n hn => update_of_ne hn _ _
  suffices hself : Local ((s.revise t p l).setPc t pc) t from
    @Agree.revise s t p l pc h s.lock s.sleepers s.cs hlive (fun _ _ => id) hr hself
  constructor <;> rw [hthr]
  case alive => intro _; rw [hlife,hst]
  case slot => exact fun _ => hl.slot hlive
  case table => exact fun _ => hl.table hlive
  case phase => intro _; rw [hlife]; exact hphase
  case exit => intro code ptr hx; rw [hlife]; exact hexit code ptr hx
  case fork => intro f k hf; rw [show pc.forking = some (f, k) from hf] at hfork; cases hfork
  case wait => intro w hw; rw [show pc.waiting = some w from hw] at hwait; cases hwait
  case needs => exact hneeds _
  case reap => intro i hh hx; rw [show pc.reaping = some (i, hh) from hx] at hreap; cases hreap
  case makes =>
    intro n hn
    by_cases hnp : n = (s.threads t).proc
    · rw [hnp,hlife,hst] at hn
      cases hn
    · rw [hothers n hnp] at hn
      obtain ⟨f,k,hf,-⟩ := hl.makes n hn
      rw [hidle.1] at hf
      cases hf
  case reaps =>
    intro n hn
    by_cases hnp : n = (s.threads t).proc
    · rw [hnp,hlife,hst] at hn
      cases hn
    · rw [hothers n hnp] at hn
      obtain ⟨i,hh,hx,-⟩ := hl.reaps n hn
      rw [hidle.2] at hx
      cases hx

theorem Agree.exitRelease (hpc : (s.threads t).pc = .exitRelease) :
    Agree (((s.release t).setStage (s.threads t).proc .ended).setPc t .zombie) := by
  have hlive : (s.threads t).pc.live = true := by rw [hpc]; rfl
  have hl := h.threads t
  have hown := h.own_entry hlive
  have hr : Revised s t (s.mem (s.threads t).arrayPtr)
      { s.life (s.threads t).proc with stage := .ended } :=
    ⟨rfl,rfl,rfl,⟨rfl,rfl⟩,.inr rfl,hown.stop (by decide),hown.code (by decide),id,
      fun hx => ⟨hx,rfl⟩⟩
  have hz : ∀ u cv, (u, .cv cv) ∈ s.sleepers → (u, Chan.cv cv) ∈ (s.release t).sleepers := by
    intro u cv hin
    simp [State.release,hin]
  have hsame : ((s.release t).setStage (s.threads t).proc .ended).setPc t .zombie =
      ((s.revise t (s.mem (s.threads t).arrayPtr)
        { s.life (s.threads t).proc with stage := .ended }).resync (s.release t).lock
        (s.release t).sleepers (s.release t).cs).setPc t .zombie := by
    simp [State.release,State.setStage,State.setLife,State.setPc,State.revise,State.setMem,
      State.resync]
  rw [hsame]
  have hothers : ∀ n, (s.life n).stage = (((s.revise t (s.mem (s.threads t).arrayPtr)
      { s.life (s.threads t).proc with stage := .ended }).resync (s.release t).lock
      (s.release t).sleepers (s.release t).cs).setPc t .zombie |>.life n).stage ∨
      n = (s.threads t).proc := by
    intro n
    by_cases hnp : n = (s.threads t).proc
    · exact .inr hnp
    · exact .inl (congrArg Life.stage (update_of_ne hnp _ _)).symm
  refine h.revise hlive hz hr (Local.of_not_live ?_ (fun n hn => ?_) (fun n hn => ?_))
  · rw [State.threads_setPc_self]
    rfl
  · rcases hothers n with heq | heq
    · obtain ⟨f,k,hf,-⟩ := hl.makes n (heq.trans hn)
      rw [hpc] at hf
      cases hf
    · rw [heq] at hn
      cases (congrArg Life.stage (update_self _ _ _)).symm.trans hn
  · rcases hothers n with heq | heq
    · obtain ⟨i,hh,hx,-⟩ := hl.reaps n (heq.trans hn)
      rw [hpc] at hx
      cases hx
    · rw [heq] at hn
      cases (congrArg Life.stage (update_self _ _ _)).symm.trans hn

end Own

theorem State.slot_setHealth (s : State) {i : Int} {n : Nat} {hh : Health} (hl : Health)
    (hslot : s.slot i = some (n, hh)) : (s.setHealth i hl).slot i = some (n, hl) := by
  simp [State.setHealth,hslot]

section Reap
variable {s s' : State} {t n : Nat} {i : Int} {hh : Health} {pc : Pc} (h : Agree s)
include h

theorem Reaps.touches (hlive : (s.threads t).pc.live = true) (hslot : s.slot i = some (n, hh))
    (hst : (s.life n).stage = .ended ∨ (s.life n).stage = .reaping t) (hr : Reaps s s' t i n) :
    Touches s s' t n := by
  obtain ⟨c,hc⟩ := h.entry i n hh hslot
  obtain ⟨st,hlife,hst'⟩ := hr.stage
  have hother : ∀ j m hl, m ≠ n → s.slot j = some (m, hl) → j ≠ i := by
    intro j m hl hm hj heq
    rw [heq,hslot] at hj
    exact hm (Prod.mk.inj (Option.some.inj hj)).1.symm
  constructor
  case self => exact .inr hlive
  case thread => exact fun u hu _ => hr.thread u hu
  case asleep => intro u cv c _ hin _; rw [hr.sleepers]; exact .inl hin
  case life => exact hr.life
  case slot =>
    intro j m hl hm
    by_cases hji : j = i
    · rw [hji]
      exact ⟨fun hx => absurd (hr.here m hl hx) hm,fun hx => absurd rfl (hother i m hl hm hx)⟩
    · rw [(hr.slot j hji).1]
  case table => exact fun j m hl hm hj => (hr.slot j (hother j m hl hm hj)).2
  case vacant =>
    intro j
    by_cases hji : j = i
    · rw [hji]
      exact hr.vacant
    · rw [(hr.slot j hji).1,(hr.slot j hji).2]
      exact h.vacant j
  case next => exact .inl ⟨hr.next,hc.old⟩
  case cell =>
    intro c hc hp
    exact ⟨(hr.kept c hc hp).1,by rw [hr.mem],(hr.kept c hc hp).2⟩
  case procOf => intro c _; rw [hr.procOf]
  case cells => intro c hc hc'; rw [hr.alloc c hc] at hc'; cases hc'
  case newest => intro c d hc _ hc' _; rw [hr.alloc c hc] at hc'; cases hc'
  case owned =>
    intro u hu heq
    rcases hst with hx | hx <;> rw [hx] at heq
    · cases heq
    · exact hu (Option.some.inj heq).symm
  case claimed =>
    intro u hu
    rw [hlife]
    rcases hst' with hx | hx <;> rw [hx]
    · exact ⟨nofun,fun hx => hu (Stage.reaping.inj hx).symm⟩
    · exact ⟨nofun,nofun⟩
  case phase => rw [hlife]; exact id
  case exited => rw [hlife]; exact fun hx => ⟨hx,rfl⟩
  case pid => rw [hlife]; exact fun _ => rfl
  case grown => rw [hlife]; rcases hst' with hx | hx <;> rw [hx] <;> exact fun _ => rfl
  case parent => rw [hlife]; exact h.parents n hc.old

theorem Reaps.entry {c : Nat} {hl : Health} (hT : Touches s s' t n) (he : Entry s i n hh c)
    (hr : Reaps s s' t i n) (htab : s'.table i = some c)
    (hfreed : hl ≠ .freed → hh ≠ .freed ∧ s'.alloc c = true)
    (hsound : hl = .sound → s'.cvs (s.mem c).arrayCv = some c)
    (hst : (s'.life n).stage = .reaping t) : Entry s' i n hl c := by
  obtain ⟨st,hlife,-⟩ := hr.stage
  constructor
  case table => exact htab
  case pid => rw [hlife]; exact he.pid
  case old => rw [hr.next]; exact he.old
  case cell =>
    intro hx
    obtain ⟨hx',ha⟩ := hfreed hx
    exact ⟨ha,by rw [hr.procOf]; exact (he.cell hx').2⟩
  case cv => intro hx; rw [hr.mem]; exact hsound hx
  case ppid => intro hx; rw [hr.mem,hlife]; exact he.ppid (hfreed hx).1
  case parent =>
    have := (hT.grown_kept (h.parents n he.old).2).2
    rw [hlife]
    exact he.parent.trans this.symm
  case stop => intro hx; rw [hr.mem,hlife]; exact he.stop (hfreed hx).1
  case code => intro hx; rw [hr.mem,hlife]; exact he.code (hfreed hx).1
  case present => rw [hst]; exact ⟨nofun,nofun⟩
  case broken => exact fun _ => ⟨t,hst⟩

theorem Agree.reap (hlive : (s.threads t).pc.live = true) (hslot : s.slot i = some (n, hh))
    (hst : (s.life n).stage = .ended ∨ (s.life n).stage = .reaping t) (hr : Reaps s s' t i n)
    (hthr : s'.threads t = { s.threads t with pc := pc })
    (hold : (s.threads t).pc.forking = none ∧
      ∀ j hl, (s.threads t).pc.reaping = some (j, hl) → j = i)
    (hplain : pc.exiting = none ∧ pc.waiting = none ∧ pc.forking = none ∧ Needs s' t pc)
    (hphase : ∀ ph, (s.threads t).pc.allows ph = true → pc.allows ph = true)
    (hreap : ∀ j hl, pc.reaping = some (j, hl) → s'.slot j = some (n, hl) ∧
      (s'.life n).stage = .reaping t ∧ (s'.life n).ppid = (s.threads t).pid)
    (hreaps : (s'.life n).stage = .reaping t →
      ∃ hl, pc.reaping = some (i, hl) ∧ s'.slot i = some (n, hl))
    (hentry : ∀ hl, s'.slot i = some (n, hl) → ∃ c, Entry s' i n hl c)
    (hnowait : ∀ u w, u ≠ t → (s.threads u).pc.live = true → Waits s u w → w.proc ≠ n) :
    Agree s' := by
  have hT := hr.touches h hlive hslot hst
  obtain ⟨c,hc⟩ := h.entry i n hh hslot
  obtain ⟨hexit,hwait,hfork,hneeds⟩ := hplain
  obtain ⟨st,hlife,hst'⟩ := hr.stage
  have hne : (s.threads t).proc ≠ n := fun heq => by
    have hal := (h.threads t).alive hlive
    rw [heq] at hal
    rcases hst with hx | hx <;> rw [hx] at hal <;> cases hal
  refine h.touch hT (fun j hl hj => ?_) ?_ (fun u hu hid => .inl ?_)
    (fun u w hu hul hw hm => absurd hm (hnowait u w hu hul hw))
  · by_cases hji : j = i
    · rw [hji] at hj ⊢
      exact hentry hl hj
    · rw [(hr.slot j hji).1] at hj
      obtain ⟨d,hd⟩ := h.entry j n hl hj
      exact absurd (hd.pid.symm.trans hc.pid) hji
  · refine hT.self_local h hlive hne hthr hphase ⟨hexit,hwait,hneeds⟩ (fun f k hf => ?_)
      (fun j hl m hj hm => ?_) (fun f k hf => ?_) (fun hx => ?_) hreap (fun hx => ?_)
    · rw [hold.1] at hf
      cases hf
    · rw [hold.2 j hl hj,hslot] at hm
      exact (Prod.mk.inj (Option.some.inj hm)).1.symm
    · rw [hfork] at hf
      cases hf
    · rw [hlife] at hx
      rcases hst' with hy | hy <;> rw [hy] at hx <;> cases hx
    · obtain ⟨hl,hp,hs⟩ := hreaps hx
      exact ⟨i,hl,hp,hs⟩
  · rw [hr.thread u hu]
    exact Pc.live_of_idle hid

theorem Agree.reapTest {c : Nat} (hpc : (s.threads t).pc = .reapTest i)
    (htab : s.table i = some c) (hppid : (s.mem c).ppid = (s.threads t).pid)
    (hended : ∀ n hl, s.slot i = some (n, hl) → (s.life n).stage = .ended) :
    Agree ((reapStage s i (.reaping t)).setPc t (.reapPid i)) := by
  have hlive : (s.threads t).pc.live = true := by rw [hpc]; rfl
  obtain ⟨n,hh,hslot⟩ : ∃ n hh, s.slot i = some (n, hh) := by
    cases hx : s.slot i with
    | none => rw [(h.vacant i).mpr hx] at htab; cases htab
    | some x => exact ⟨x.1,x.2,rfl⟩
  have hst := hended n hh hslot
  obtain ⟨d,hd⟩ := h.entry i n hh hslot
  have hdc : d = c := Option.some.inj (hd.table.symm.trans htab)
  have hsound : hh = .sound := by
    by_contra hx
    obtain ⟨u,hu⟩ := hd.broken hx
    rw [hst] at hu
    cases hu
  have hnp : (s.life n).ppid = (s.threads t).pid := by
    rw [← hppid,← hdc]
    exact (hd.ppid (by rw [hsound]; decide)).symm
  have heq : reapStage s i (.reaping t) = s.setStage n (.reaping t) := by
    simp [reapStage,hslot]
  rw [heq]
  have hlife : ((s.setStage n (.reaping t)).setPc t (.reapPid i)).life n =
      { s.life n with stage := .reaping t } := update_self _ _ _
  have hr : Reaps s ((s.setStage n (.reaping t)).setPc t (.reapPid i)) t i n := by
    constructor
    case thread => exact fun u hu => State.threads_setPc_ne _ hu _
    case life => exact fun m hm => update_of_ne hm _ _
    case slot => exact fun _ _ => ⟨rfl,rfl⟩
    case here => exact fun m hl hm => (Prod.mk.inj (Option.some.inj (hslot.symm.trans hm))).1.symm
    case vacant => exact h.vacant i
    case alloc => exact fun _ => id
    case kept => exact fun c hc _ => ⟨hc,id⟩
    case stage => exact ⟨_,hlife,.inl rfl⟩
    all_goals rfl
  have hT := hr.touches h hlive hslot (.inl hst)
  refine h.reap hlive hslot (.inl hst) hr (State.threads_setPc_self _ _ _)
    (by rw [hpc]; exact ⟨rfl,nofun⟩) ⟨rfl,rfl,rfl,trivial⟩ (by rw [hpc]; exact fun _ => id)
    (fun j hl hj => ?_) (fun _ => ⟨.sound,rfl,hsound ▸ hslot⟩) (fun hl hi => ⟨d,?_⟩)
    (fun u w hu hul hw hwn => ?_)
  · cases hj
    exact ⟨hsound ▸ hslot,by rw [hlife],by rw [hlife]; exact hnp⟩
  · have hls : hl = hh := (Prod.mk.inj (Option.some.inj (hslot.symm.trans hi))).2.symm
    rw [hls]
    exact hr.entry h hT hd hd.table (fun hx => ⟨hx,(hd.cell hx).1⟩) (fun hx => hd.cv hx)
      (by rw [hlife])
  · have := h.waits_ppid hul hw
    rw [hwn,hnp] at this
    exact hu (h.pid_inj hlive hul this).symm

theorem Agree.reap_owner (hpc : (s.threads t).pc.reaping = some (i, hh)) :
    ∃ n c, s.slot i = some (n, hh) ∧ (s.life n).stage = .reaping t ∧
      (s.life n).ppid = (s.threads t).pid ∧ Entry s i n hh c ∧
      ∀ u w, u ≠ t → (s.threads u).pc.live = true → Waits s u w → w.proc ≠ n := by
  obtain ⟨n,hslot,hst,hpp⟩ := (h.threads t).reap i hh hpc
  obtain ⟨c,hc⟩ := h.entry i n hh hslot
  refine ⟨n,c,hslot,hst,hpp,hc,fun u w _ _ hw hwn => ?_⟩
  have := hw.settled
  rw [hwn,hst] at this
  cases this

theorem Agree.ruin {c : Nat} {v : Nat → Option Nat} {a : Nat → Bool} {hh' : Health}
    (hlive : (s.threads t).pc.live = true) (hold : (s.threads t).pc.reaping = some (i, hh))
    (hfork : (s.threads t).pc.forking = none) (hnew : pc.reaping = some (i, hh'))
    (hplain : pc.exiting = none ∧ pc.waiting = none ∧ pc.forking = none ∧ ∀ s', Needs s' t pc)
    (hphase : ∀ ph, (s.threads t).pc.allows ph = true → pc.allows ph = true)
    (hhh : hh ≠ .freed) (hsound : hh' ≠ .sound) (htab : s.table i = some c)
    (halloc : ∀ e, a e = true → s.alloc e = true)
    (hkept : ∀ e, s.alloc e = true → s.procOf e ≠ s.procOf c →
      a e = true ∧ (s.cvs (s.mem e).arrayCv = some e → v (s.mem e).arrayCv = some e))
    (hcell : hh' ≠ .freed → a c = true) :
    Agree ((({ s with cvs := v, alloc := a }).setHealth i hh').setPc t pc) := by
  obtain ⟨n,d,hslot,hst,hpp,hd,hnowait⟩ := h.reap_owner hold
  have hdc : d = c := Option.some.inj (hd.table.symm.trans htab)
  have hproc := (hd.cell hhh).2
  rw [hdc] at hproc
  set s₁ : State := { s with cvs := v, alloc := a } with hs₁
  have hslot' : ((s₁.setHealth i hh').setPc t pc).slot i = some (n, hh') :=
    State.slot_setHealth s₁ hh' hslot
  have hr : Reaps s ((s₁.setHealth i hh').setPc t pc) t i n := by
    constructor
    case thread => exact fun u hu => State.threads_setPc_ne _ hu _
    case life => exact fun _ _ => rfl
    case slot => exact fun j hj => ⟨update_of_ne hj _ _,rfl⟩
    case here => exact fun m hl hm => (Prod.mk.inj (Option.some.inj (hslot'.symm.trans hm))).1.symm
    case vacant =>
      rw [hslot']
      exact ⟨fun hx => absurd (htab.symm.trans hx) nofun,nofun⟩
    case alloc => exact halloc
    case kept => exact fun e he hp => hkept e he (by rw [hproc]; exact hp)
    case stage => exact ⟨.reaping t,by rw [← hst]; rfl,.inl rfl⟩
    all_goals rfl
  have hT := hr.touches h hlive hslot (.inr hst)
  obtain ⟨hexit,hwait,hfork',hneeds⟩ := hplain
  refine h.reap hlive hslot (.inr hst) hr (State.threads_setPc_self _ _ _)
    ⟨hfork,fun j hl hj => by rw [hold] at hj; cases hj; rfl⟩ ⟨hexit,hwait,hfork',hneeds _⟩ hphase
    (fun j hl hj => ?_) (fun _ => ⟨hh',hnew,hslot'⟩) (fun hl hi => ⟨c,?_⟩) hnowait
  · rw [hnew] at hj
    cases hj
    exact ⟨hslot',hst,hpp⟩
  · have hls : hl = hh' := (Prod.mk.inj (Option.some.inj (hslot'.symm.trans hi))).2.symm
    exact hr.entry h hT (hdc ▸ hd) htab (fun hx => ⟨hhh,hcell (hls ▸ hx)⟩)
      (fun hx => absurd (hls.symm.trans hx) hsound) hst

theorem Agree.reapCv {c : Nat} (hpc : (s.threads t).pc = .reapCv i) (htab : s.table i = some c) :
    Agree ((({ s with cvs := Function.update s.cvs (s.mem c).arrayCv none }).setHealth i
      .cvGone).setPc t (.reapFree i)) := by
  have hold : (s.threads t).pc.reaping = some (i, .sound) := by rw [hpc]; rfl
  obtain ⟨n,d,-,-,-,hd,-⟩ := h.reap_owner hold
  have hdc : d = c := Option.some.inj (hd.table.symm.trans htab)
  have hcv := hd.cv rfl
  rw [hdc] at hcv
  refine h.ruin (by rw [hpc]; rfl) hold (by rw [hpc]; rfl) rfl ⟨rfl,rfl,rfl,fun _ => trivial⟩
    (by rw [hpc]; exact fun _ => id) (by decide) (by decide) htab (fun _ => id)
    (fun e he hp => ⟨he,fun hcve => ?_⟩) fun _ => hdc ▸ (hd.cell (by decide)).1
  have hne : (s.mem e).arrayCv ≠ (s.mem c).arrayCv := fun hx => by
    rw [hx,hcv] at hcve
    exact hp (by rw [Option.some.inj hcve])
  exact (update_of_ne hne _ _).trans hcve

theorem Agree.reapFree {c : Nat} (hpc : (s.threads t).pc = .reapFree i)
    (htab : s.table i = some c) :
    Agree ((({ s with alloc := Function.update s.alloc c false }).setHealth i .freed).setPc t
      (.reapNull i)) := by
  have hold : (s.threads t).pc.reaping = some (i, .cvGone) := by rw [hpc]; rfl
  obtain ⟨n,d,-,-,-,hd,-⟩ := h.reap_owner hold
  have hdc : d = c := Option.some.inj (hd.table.symm.trans htab)
  refine h.ruin (by rw [hpc]; rfl) hold (by rw [hpc]; rfl) rfl ⟨rfl,rfl,rfl,fun _ => trivial⟩
    (by rw [hpc]; exact fun _ => id) (by decide) (by decide) htab (fun e he => ?_)
    (fun e he hp => ⟨?_,id⟩) fun hx => absurd rfl hx
  · by_cases hec : e = c
    · rw [hec,← hdc]
      exact (hd.cell (by decide)).1
    · exact (update_of_ne hec _ _).symm.trans he
  · exact (update_of_ne (fun hx => hp (by rw [hx])) _ _).trans he

theorem Agree.reapNull (hpc : (s.threads t).pc = .reapNull i) :
    Agree (({ reapStage s i .gone with
      table := Function.update s.table i none
      slot := Function.update s.slot i none }).setPc t (.scan (i + 1))) := by
  have hlive : (s.threads t).pc.live = true := by rw [hpc]; rfl
  have hreaping : (s.threads t).pc.reaping = some (i, .freed) := by rw [hpc]; rfl
  obtain ⟨n,d,hslot,hst,hpp,hd,hnowait⟩ := h.reap_owner hreaping
  have heq : reapStage s i .gone = s.setStage n .gone := by
    simp [reapStage,hslot]
  rw [heq]
  set s₁ : State := { s.setStage n .gone with
    table := update s.table i none
    slot := update s.slot i none } with hs₁
  have hlife : (s₁.setPc t (.scan (i + 1))).life n = { s.life n with stage := .gone } :=
    update_self _ _ _
  have hslot' : (s₁.setPc t (.scan (i + 1))).slot i = none := update_self _ _ _
  have htab' : (s₁.setPc t (.scan (i + 1))).table i = none := update_self _ _ _
  have hr : Reaps s (s₁.setPc t (.scan (i + 1))) t i n := by
    constructor
    case thread => exact fun u hu => State.threads_setPc_ne _ hu _
    case life => exact fun m hm => update_of_ne hm _ _
    case slot => exact fun j hj => ⟨update_of_ne hj _ _,update_of_ne hj _ _⟩
    case here => exact fun m hl hm => absurd (hslot'.symm.trans hm) nofun
    case vacant => exact ⟨fun _ => hslot',fun _ => htab'⟩
    case alloc => exact fun _ => id
    case kept => exact fun e he _ => ⟨he,id⟩
    case stage => exact ⟨.gone,hlife,.inr rfl⟩
    all_goals rfl
  refine h.reap hlive hslot (.inr hst) hr (State.threads_setPc_self _ _ _)
    (by rw [hpc]; exact ⟨rfl,fun j hl hj => by cases hj; rfl⟩) ⟨rfl,rfl,rfl,trivial⟩
    (by rw [hpc]; exact fun _ => id) nofun (fun hx => ?_)
    (fun hl hi => absurd (hslot'.symm.trans hi) nofun) hnowait
  rw [hlife] at hx
  cases hx

end Reap

end OS161.Proc
