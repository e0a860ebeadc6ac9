import OS161.Proc.Moves

namespace OS161.Proc

open Function State

structure Builds (s s' : State) (t : Nat) (f : Fork) : Prop where
  thread : ∀ u, u ≠ t → u ≠ f.thread → s'.threads u = s.threads u
  sleepers : s'.sleepers = s.sleepers
  life : ∀ n, n ≠ f.proc → s'.life n = s.life n
  slot : ∀ i, s.slot i ≠ none → s'.slot i = s.slot i ∧ s'.table i = s.table i
  added : ∀ i n h, n ≠ f.proc → s'.slot i = some (n, h) → s.slot i = some (n, h)
  vacant : ∀ i, s'.table i = none ↔ s'.slot i = none
  next : s'.next = s.next
  cell : ∀ c, c ≠ f.temp → s'.alloc c = s.alloc c ∧ s'.mem c = s.mem c
  cvs : ∀ cv c, c ≠ f.temp → s.cvs cv = some c → s'.cvs cv = some c
  procOf : s'.procOf = s.procOf
  phase : (s'.life f.proc).phase = .running
  parent : (s'.life f.proc).parent = (s.life f.proc).parent
  stage : (s'.life f.proc).stage = .making t ∨ (s'.life f.proc).stage = .alive f.thread ∨
    (s'.life f.proc).stage = .lost

section
variable {s s' : State} {t k : Nat} {f : Fork} {pc : Pc} (h : Agree s)

theorem Making.thread_ne (hm : Making s t f k) (hlive : (s.threads t).pc.live = true) :
    f.thread ≠ t := fun heq => by
  have := hm.thread
  rw [heq] at this
  rw [this] at hlive
  cases hlive

theorem Making.proc_ne (hm : Making s t f k) (hal : (s.life (s.threads t).proc).stage = .alive t) :
    (s.threads t).proc ≠ f.proc := fun heq => by
  rw [heq,hm.stage] at hal
  cases hal

include h

theorem Builds.touches (hlive : (s.threads t).pc.live = true) (hm : Making s t f k)
    (hb : Builds s s' t f) : Touches s s' t f.proc := by
  have hal := (h.threads t).alive hlive
  have hown := h.own_entry hlive
  have hgrown : (s.life f.proc).stage.grown = false := by
    rw [hm.stage]
    rfl
  have hold : ∀ c, s'.alloc c = true → s.alloc c = true := by
    intro c hc
    by_cases hct : c = f.temp
    · rw [hct]
      exact hm.cell.1
    · rw [← (hb.cell c hct).1]
      exact hc
  constructor
  case self => exact .inr hlive
  case thread =>
    intro u hu hid
    refine hb.thread u hu fun heq => ?_
    rw [heq,hm.thread] at hid
    simp [Pc.idle] at hid
  case asleep => intro u cv c _ hin _; rw [hb.sleepers]; exact .inl hin
  case life => exact hb.life
  case slot =>
    intro i n hl hn
    refine ⟨hb.added i n hl hn,fun hi => ?_⟩
    rw [(hb.slot i (by simp [hi])).1]
    exact hi
  case table => exact fun i n hl _ hi => (hb.slot i (by simp [hi])).2
  case vacant => exact hb.vacant
  case next => exact .inl ⟨hb.next,hm.old⟩
  case cell =>
    intro c hc hp
    have hct : c ≠ f.temp := fun heq => hp (by rw [heq]; exact hm.cell.2)
    obtain ⟨ha,hmem⟩ := hb.cell c hct
    exact ⟨ha.trans hc,hmem,hb.cvs _ c hct⟩
  case procOf => intro c _; rw [hb.procOf]
  case cells => intro c hc hc'; rw [hold c hc] at hc'; cases hc'
  case newest => intro c d hc _ hc' _; rw [hold c hc] at hc'; cases hc'
  case owned => intro u hu heq; rw [hm.stage] at heq; exact hu (Option.some.inj heq).symm
  case claimed =>
    intro u hu
    rcases hb.stage with heq | heq | heq <;> rw [heq]
    · exact ⟨fun hx => hu (Stage.making.inj hx).symm,(fun h => by cases h)⟩
    · exact ⟨(fun h => by cases h),(fun h => by cases h)⟩
    · exact ⟨(fun h => by cases h),(fun h => by cases h)⟩
  case phase => intro hx; exact absurd hm.phase hx
  case exited => intro hx; rw [hm.phase] at hx; cases hx
  case pid => intro hx; rw [hgrown] at hx; cases hx
  case grown => intro hx; rw [hgrown] at hx; cases hx
  case parent =>
    rw [hb.parent,hm.parent,hal]
    exact ⟨hown.old,rfl⟩

theorem Agree.build (hlive : (s.threads t).pc.live = true)
    (hpc : (s.threads t).pc.forking = some (f, k)) (hb : Builds s s' t f)
    (hthr : s'.threads t = { s.threads t with pc := pc })
    (hphase : ∀ ph, (s.threads t).pc.allows ph = true → pc.allows ph = true)
    (hplain : pc.exiting = none ∧ pc.waiting = none ∧ pc.reaping = none ∧ Needs s' t pc)
    (hfork : ∀ f' k', pc.forking = some (f', k') → Making s' t f' k')
    (hmakes : (s'.life f.proc).stage = .making t → ∃ k', pc.forking = some (f, k'))
    (hthread : (s'.threads f.thread).pc.live = false ∨ Local s' f.thread)
    (hentry : ∀ i hl, s'.slot i = some (f.proc, hl) → ∃ c, Entry s' i f.proc hl c) :
    Agree s' := by
  have hm := (h.threads t).fork f k hpc
  have hT := hb.touches h hlive hm
  have hne := hm.proc_ne ((h.threads t).alive hlive)
  obtain ⟨hexit,hwait,hreap,hneeds⟩ := hplain
  have hnoreap : (s.threads t).pc.reaping = none := by
    generalize (s.threads t).pc = p at hpc
    cases p <;> first | rfl | cases hpc
  refine h.touch hT hentry ?_ (fun u hu hid => ?_) (fun u w hu _ hw hwm => ?_)
  · refine hT.self_local h hlive hne hthr hphase ⟨hexit,hwait,hneeds⟩ (fun f' k' hf' => ?_)
      (fun i hl n hr => ?_) hfork (fun hst => ?_) (fun i hl hr => ?_) (fun hst => ?_)
    · rw [hpc] at hf'
      cases hf'
      rfl
    · rw [hnoreap] at hr
      cases hr
    · obtain ⟨k',hk'⟩ := hmakes hst
      exact ⟨f,k',hk',rfl⟩
    · rw [hreap] at hr
      cases hr
    · rcases hb.stage with heq | heq | heq <;> rw [heq] at hst <;> cases hst
  · by_cases huf : u = f.thread
    · rw [huf]
      exact hthread
    · rw [hb.thread u hu huf]
      exact .inl (Pc.live_of_idle hid)
  · have := hw.settled
    rw [hwm,hm.stage] at this
    cases this

end

structure Draft (s : State) (t : Nat) (f : Fork) (k : Nat) (p : Process) (l : Life) : Prop where
  stage : l.stage = .making t
  parent : l.parent = (s.life f.proc).parent
  phase : l.phase = .running
  cv : p.arrayCv = (s.mem f.temp).arrayCv
  pid : 2 ≤ k → p.pid = l.pid
  ppid : 3 ≤ k → p.ppid = l.ppid ∧ l.ppid = (s.threads t).pid
  status : 4 ≤ k → p.status = .running

section Effects
variable {s : State} {t k k' : Nat} {f : Fork} {pc : Pc} (h : Agree s)

theorem State.setLife_same (s : State) (n : Nat) : s.setLife n (s.life n) = s := by
  simp [State.setLife]

theorem State.life_setLife (s : State) (n : Nat) (l : Life) : (s.setLife n l).life n = l := by
  simp [State.setLife]

theorem State.mem_setMem (s : State) (c : Nat) (p : Process) : (s.setMem c p).mem c = p := by
  simp [State.setMem]

theorem State.setMem_same (s : State) (c : Nat) : s.setMem c (s.mem c) = s := by
  simp [State.setMem]

theorem Making.redraft {v : Nat → Option Nat} {p : Process} {l : Life} (hm : Making s t f k)
    (hft : f.thread ≠ t) (hk : k ≤ 4) (hk' : k' ≤ 4) (hcv : 1 ≤ k' → v p.arrayCv = some f.temp)
    (hd : Draft s t f k' { p with arrayCv := (s.mem f.temp).arrayCv } l) :
    Making (((({ s with cvs := v }).setMem f.temp p).setLife f.proc l).setPc t pc) t f k' := by
  set s' : State := ((({ s with cvs := v }).setMem f.temp p).setLife f.proc l).setPc t pc with hs'
  have hlife : s'.life f.proc = l := life_setLife _ _ _
  have hmem : s'.mem f.temp = p := mem_setMem _ _ _
  have hthr : s'.threads t = { s.threads t with pc := pc } := threads_setPc_self _ _ _
  have hfth : s'.threads f.thread = s.threads f.thread := threads_setPc_ne _ hft _
  constructor
  case stage => rw [hlife]; exact hd.stage
  case parent => rw [hlife,hthr,hd.parent]; exact hm.parent
  case phase => rw [hlife]; exact hd.phase
  case old => exact hm.old
  case thread => rw [hfth]; exact hm.thread
  case cell => exact hm.cell
  case cv => rw [hmem]; exact hcv
  case pid => rw [hlife,hmem]; exact hd.pid
  case ppid => rw [hlife,hmem,hthr]; exact hd.ppid
  case status => rw [hmem]; exact hd.status
  case ptr => intro hx; omega
  case tpid => intro hx; omega
  case out => exact fun _ => hm.out (by omega)
  case listed => intro hx; omega

include h

section
variable {v : Nat → Option Nat} {p : Process} {l : Life} (hlive : (s.threads t).pc.live = true)
  (hpc : (s.threads t).pc.forking = some (f, k)) (hk : k ≤ 4) (hpc' : pc.forking = some (f, k'))
  (hk' : k' ≤ 4) (hphase : ∀ ph, (s.threads t).pc.allows ph = true → pc.allows ph = true)
  (hplain : pc.exiting = none ∧ pc.waiting = none ∧ pc.reaping = none ∧ ∀ s', Needs s' t pc)
  (hcvs : ∀ cv c, c ≠ f.temp → s.cvs cv = some c → v cv = some c)
  (hcv : 1 ≤ k' → v p.arrayCv = some f.temp)
include hlive hpc hk hpc' hk' hphase hplain hcvs hcv

theorem Agree.redraft
    (hd : Draft s t f k' { p with arrayCv := (s.mem f.temp).arrayCv } l) :
    Agree (((({ s with cvs := v }).setMem f.temp p).setLife f.proc l).setPc t pc) := by
  have hm := (h.threads t).fork f k hpc
  have hft := hm.thread_ne hlive
  obtain ⟨hexit,hwait,hreap,hneeds⟩ := hplain
  refine h.build hlive hpc ?_ (threads_setPc_self _ _ _) hphase
    ⟨hexit,hwait,hreap,hneeds _⟩ (fun f' k'' hf' => ?_) (fun _ => ⟨k',hpc'⟩) (.inl ?_)
    fun i hl hi => absurd hi (hm.out (by omega) i hl)
  · constructor
    case thread => exact fun u hu _ => threads_setPc_ne _ hu _
    case sleepers => rfl
    case life => exact fun n hn => update_of_ne hn _ _
    case slot => exact fun _ _ => ⟨rfl,rfl⟩
    case added => exact fun _ _ _ _ hi => hi
    case vacant => exact h.vacant
    case next => rfl
    case cell => exact fun c hc => ⟨rfl,update_of_ne hc _ _⟩
    case cvs => exact hcvs
    case procOf => rfl
    case phase => rw [life_setPc,life_setLife]; exact hd.phase
    case parent => rw [life_setPc,life_setLife]; exact hd.parent
    case stage => rw [life_setPc,life_setLife]; exact .inl hd.stage
  · rw [hpc'] at hf'
    cases hf'
    exact hm.redraft hft hk hk' hcv hd
  · rw [threads_setPc_ne _ hft]
    exact congrArg Pc.live hm.thread

theorem Agree.storeMem
    (hd : Draft s t f k' { p with arrayCv := (s.mem f.temp).arrayCv } (s.life f.proc)) :
    Agree ((({ s with cvs := v }).setMem f.temp p).setPc t pc) := by
  have hst := h.redraft hlive hpc hk hpc' hk' hphase hplain hcvs hcv hd
  rwa [show s.life f.proc = (({ s with cvs := v }).setMem f.temp p).life f.proc from rfl,
    setLife_same] at hst

end

theorem Agree.give_cv {cv : Nat} (hpc : (s.threads t).pc = .cpCv f) (hfree : s.cvs cv = none) :
    Agree ((({ s with cvs := Function.update s.cvs cv (some f.temp) }).setMem f.temp
      { s.mem f.temp with arrayCv := cv }).setPc t (.lockCheck (.child f))) := by
  have hforking : (s.threads t).pc.forking = some (f, 0) := by rw [hpc]; rfl
  have hm := (h.threads t).fork f 0 hforking
  refine h.storeMem (by rw [hpc]; rfl) hforking (by decide) rfl (by decide)
    (by rw [hpc]; exact fun _ => id) ⟨rfl,rfl,rfl,fun _ => trivial⟩ (fun cv' c _ hc => ?_)
    (fun _ => update_self _ _ _) ⟨hm.stage,rfl,hm.phase,rfl,nofun,nofun,nofun⟩
  have hne : cv' ≠ cv := fun heq => by
    rw [heq,hfree] at hc
    cases hc
  exact (update_of_ne hne _ _).trans hc

theorem Agree.drop_cv (hpc : (s.threads t).pc = .fullCv f) :
    Agree (({ s with cvs := Function.update s.cvs (s.mem f.temp).arrayCv none }).setPc t
      (.fullFree f)) := by
  have hforking : (s.threads t).pc.forking = some (f, 2) := by rw [hpc]; rfl
  have hm := (h.threads t).fork f 2 hforking
  rw [← setMem_same { s with cvs := update s.cvs (s.mem f.temp).arrayCv none } f.temp]
  refine h.storeMem (by rw [hpc]; rfl) hforking (by decide) rfl (by decide)
    (by rw [hpc]; exact fun _ => id) ⟨rfl,rfl,rfl,fun _ => trivial⟩ (fun cv' c hct hc => ?_) nofun
    ⟨hm.stage,rfl,hm.phase,rfl,nofun,nofun,nofun⟩
  have hne : cv' ≠ (s.mem f.temp).arrayCv := fun heq => by
    rw [heq,hm.cv (by decide)] at hc
    exact hct (Option.some.inj hc).symm
  exact (update_of_ne hne _ _).trans hc

theorem Agree.enrol {th : Thread} (hlive : (s.threads t).pc.live = true)
    (hpc : (s.threads t).pc.forking = some (f, k)) (hk : 4 ≤ k ∧ k ≤ 5)
    (hpc' : pc.forking = some (f, k')) (hk' : k' = k + 1)
    (hphase : ∀ ph, (s.threads t).pc.allows ph = true → pc.allows ph = true)
    (hplain : pc.exiting = none ∧ pc.waiting = none ∧ pc.reaping = none ∧ ∀ s', Needs s' t pc)
    (hth : th.pc = (s.threads f.thread).pc) (hptr : th.arrayPtr = f.temp ∧ th.proc = f.proc)
    (htpid : 6 ≤ k' → th.pid = (s.life f.proc).pid) :
    Agree (({ s with threads := Function.update s.threads f.thread th }).setPc t pc) := by
  have hm := (h.threads t).fork f k hpc
  have hft := hm.thread_ne hlive
  obtain ⟨hexit,hwait,hreap,hneeds⟩ := hplain
  have hfth : (({ s with threads := update s.threads f.thread th }).setPc t pc).threads
      f.thread = th := by
    rw [threads_setPc_ne _ hft]
    exact update_self _ _ _
  have hthr : (({ s with threads := update s.threads f.thread th }).setPc t pc).threads
      t = { s.threads t with pc := pc } := by
    simp [State.setPc,update_of_ne (Ne.symm hft)]
  refine h.build hlive hpc ?_ hthr hphase ⟨hexit,hwait,hreap,hneeds _⟩
    (fun f' k'' hf' => ?_) (fun _ => ⟨k',hpc'⟩) (.inl ?_)
    fun i hl hi => absurd hi (hm.out (by omega) i hl)
  · constructor
    case thread =>
      intro u hu huf
      rw [threads_setPc_ne _ hu]
      exact update_of_ne huf _ _
    case sleepers => rfl
    case life => exact fun _ _ => rfl
    case slot => exact fun _ _ => ⟨rfl,rfl⟩
    case added => exact fun _ _ _ _ hi => hi
    case vacant => exact h.vacant
    case next => rfl
    case cell => exact fun c _ => ⟨rfl,rfl⟩
    case cvs => exact fun _ _ _ hc => hc
    case procOf => rfl
    case phase => exact hm.phase
    case parent => rfl
    case stage => exact .inl hm.stage
  · rw [hpc'] at hf'
    cases hf'
    constructor
    case stage => exact hm.stage
    case parent => rw [hthr]; exact hm.parent
    case phase => exact hm.phase
    case old => exact hm.old
    case thread => rw [hfth,hth]; exact hm.thread
    case cell => exact hm.cell
    case cv => exact fun _ => hm.cv (by omega)
    case pid => exact fun _ => hm.pid (by omega)
    case ppid => intro _; rw [hthr]; exact hm.ppid (by omega)
    case status => exact fun _ => hm.status (by omega)
    case ptr => intro _; rw [hfth]; exact hptr
    case tpid => rw [hfth]; exact htpid
    case out => exact fun _ => hm.out (by omega)
    case listed => intro hx; omega
  · rw [hfth,hth,hm.thread]
    rfl

theorem Agree.register {i : Int} (hpc : (s.threads t).pc = .cpChild .table f i)
    (hvac : s.table (s.mem f.temp).pid = none) :
    Agree (({ s with
      table := Function.update s.table (s.mem f.temp).pid (some f.temp)
      slot := Function.update s.slot (s.mem f.temp).pid (some (f.proc, .sound)) }).setPc t
      (.cpRelease f)) := by
  have hlive : (s.threads t).pc.live = true := by rw [hpc]; rfl
  have hforking : (s.threads t).pc.forking = some (f, 6) := by rw [hpc]; rfl
  have hm := (h.threads t).fork f 6 hforking
  have hft := hm.thread_ne hlive
  have hpid := hm.pid (by omega)
  have hown := h.own_entry hlive
  have hslot : s.slot (s.mem f.temp).pid = none := (h.vacant _).mp hvac
  refine h.build hlive hforking ?_ (threads_setPc_self _ _ _) (by rw [hpc]; exact fun _ => id)
    ⟨rfl,rfl,rfl,trivial⟩ (fun f' k'' hf' => ?_) (fun _ => ⟨7,rfl⟩) (.inl ?_)
    (fun j hl hj => ⟨f.temp,?_⟩)
  · constructor
    case thread => exact fun u hu _ => threads_setPc_ne _ hu _
    case sleepers => rfl
    case life => exact fun _ _ => rfl
    case slot =>
      intro j hj
      have hne : j ≠ (s.mem f.temp).pid := fun heq => hj (by rw [heq]; exact hslot)
      exact ⟨update_of_ne hne _ _,update_of_ne hne _ _⟩
    case added =>
      intro j n hl hn hj
      by_cases heq : j = (s.mem f.temp).pid
      · rw [heq] at hj
        have := (update_self _ _ _).symm.trans hj
        simp only [Option.some.injEq,Prod.mk.injEq] at this
        exact absurd this.1.symm hn
      · exact (update_of_ne heq _ _).symm.trans hj
    case vacant =>
      intro j
      change update s.table (s.mem f.temp).pid (some f.temp) j = none ↔
        update s.slot (s.mem f.temp).pid (some (f.proc, .sound)) j = none
      by_cases heq : j = (s.mem f.temp).pid
      · simp [heq]
      · rw [update_of_ne heq,update_of_ne heq]
        exact h.vacant j
    case next => rfl
    case cell => exact fun c _ => ⟨rfl,rfl⟩
    case cvs => exact fun _ _ _ hc => hc
    case procOf => rfl
    case phase => exact hm.phase
    case parent => rfl
    case stage => exact .inl hm.stage
  · cases hf'
    constructor
    case stage => exact hm.stage
    case parent => rw [threads_setPc_self]; exact hm.parent
    case phase => exact hm.phase
    case old => exact hm.old
    case thread => rw [threads_setPc_ne _ hft]; exact hm.thread
    case cell => exact hm.cell
    case cv => exact fun _ => hm.cv (by omega)
    case pid => exact fun _ => hpid
    case ppid => intro _; rw [threads_setPc_self]; exact hm.ppid (by omega)
    case status => exact fun _ => hm.status (by omega)
    case ptr => intro _; rw [threads_setPc_ne _ hft]; exact hm.ptr (by omega)
    case tpid => intro _; rw [threads_setPc_ne _ hft]; exact hm.tpid (by omega)
    case out => intro hx; omega
    case listed =>
      intro _
      rw [life_setPc,← hpid]
      exact ⟨update_self _ _ _,update_self _ _ _⟩
  · rw [threads_setPc_ne _ hft]
    exact congrArg Pc.live hm.thread
  · by_cases heq : j = (s.mem f.temp).pid
    · have hsound : hl = .sound := by
        rw [heq] at hj
        have := (update_self _ _ _).symm.trans hj
        simp only [Option.some.injEq,Prod.mk.injEq] at this
        exact this.2.symm
      have hpp := hm.ppid (by omega)
      constructor
      case table => rw [heq]; exact update_self _ _ _
      case pid => rw [heq]; exact hpid.symm
      case old => exact hm.old
      case cell => exact fun _ => hm.cell
      case cv => exact fun _ => hm.cv (by omega)
      case ppid => exact fun _ => hpp.1
      case parent =>
        rw [life_setPc]
        refine hpp.2.trans ?_
        rw [hm.parent]
        exact hown.pid.symm
      case stop =>
        intro _ hst
        cases (hm.status (by omega)).symm.trans hst
      case code => intro _ hex; rw [life_setPc,hm.phase] at hex; cases hex
      case present => rw [life_setPc,hm.stage]; exact ⟨nofun,nofun⟩
      case broken => intro hx; exact absurd hsound hx
    · exact absurd ((update_of_ne heq _ _).symm.trans hj) (hm.out (by omega) j hl)

theorem Agree.restage {s' : State} {j : Int} {hl : Health} {g : Stage}
    (hlive : (s.threads t).pc.live = true) (hm : Making s t f k) (hj : s.slot j = some (f.proc, hl))
    (hlife : s'.life f.proc = { s.life f.proc with stage := g }) (hg : g ≠ .unused ∧ g ≠ .gone)
    (hothers : ∀ n, n ≠ f.proc → s'.life n = s.life n)
    (hsame : s'.table = s.table ∧ s'.mem = s.mem ∧ s'.cvs = s.cvs ∧ s'.procOf = s.procOf ∧
      s'.next = s.next) (ha : ∀ c, s.table j = some c → s.alloc c = true → s'.alloc c = true) :
    ∃ c, Entry s' j f.proc hl c := by
  obtain ⟨c,hc⟩ := h.entry j f.proc hl hj
  obtain ⟨htable,hmem,hcvs,hprocOf,hnext⟩ := hsame
  have hpar : (s.life f.proc).parent ≠ f.proc := by
    rw [hm.parent]
    exact hm.proc_ne ((h.threads t).alive hlive)
  refine ⟨c,?_⟩
  constructor <;> simp only [hlife,htable,hmem,hcvs,hprocOf,hnext]
  case table => exact hc.table
  case pid => exact hc.pid
  case old => exact hc.old
  case cell => exact fun hx => ⟨ha c hc.table (hc.cell hx).1,(hc.cell hx).2⟩
  case cv => exact hc.cv
  case ppid => exact hc.ppid
  case parent => exact hc.parent.trans (by rw [hothers _ hpar])
  case stop => exact hc.stop
  case code => exact hc.code
  case present => exact hg
  case broken =>
    intro hx
    obtain ⟨u,hu⟩ := hc.broken hx
    rw [hm.stage] at hu
    cases hu

theorem Agree.discard {a : Nat → Bool} (hlive : (s.threads t).pc.live = true)
    (hpc : (s.threads t).pc.forking = some (f, k)) (ha : ∀ c, c ≠ f.temp → a c = s.alloc c)
    (hkeep : 7 ≤ k → a f.temp = s.alloc f.temp)
    (hphase : ∀ ph, (s.threads t).pc.allows ph = true → Pc.user.allows ph = true) :
    Agree ((({ s with alloc := a }).freeThread f).setPc t .user) := by
  have hm := (h.threads t).fork f k hpc
  have hft := hm.thread_ne hlive
  have hlife : ((({ s with alloc := a }).freeThread f).setPc t .user).life f.proc =
      { s.life f.proc with stage := .lost } := life_setLife _ _ _
  have hothers : ∀ n, n ≠ f.proc →
      ((({ s with alloc := a }).freeThread f).setPc t .user).life n = s.life n :=
    fun n hn => update_of_ne hn _ _
  have hfth : (((({ s with alloc := a }).freeThread f).setPc t .user).threads f.thread).pc =
      .unborn := by
    rw [threads_setPc_ne _ hft]
    exact congrArg Thread.pc (threads_setPc_self _ f.thread _)
  refine h.build hlive hpc ?_ ?_ hphase ⟨rfl,rfl,rfl,trivial⟩ (fun f' k'' hf' => ?_)
    (fun hst => ?_) (.inl ?_) (fun j hl hj => ?_)
  · constructor
    case thread =>
      intro u hu huf
      rw [threads_setPc_ne _ hu]
      exact threads_setPc_ne { s with alloc := a } huf .unborn
    case sleepers => rfl
    case life => exact hothers
    case slot => exact fun _ _ => ⟨rfl,rfl⟩
    case added => exact fun _ _ _ _ hi => hi
    case vacant => exact h.vacant
    case next => rfl
    case cell => exact fun c hc => ⟨ha c hc,rfl⟩
    case cvs => exact fun _ _ _ hc => hc
    case procOf => rfl
    case phase => rw [hlife]; exact hm.phase
    case parent => rw [hlife]
    case stage => rw [hlife]; exact .inr (.inr rfl)
  · rw [threads_setPc_self]
    have := threads_setPc_ne { s with alloc := a } hft.symm .unborn
    exact congrArg (fun x : Thread => ({ x with pc := .user } : Thread)) this
  · cases hf'
  · rw [hlife] at hst
    cases hst
  · rw [hfth]
    rfl
  · have hk : 7 ≤ k := by
      by_contra hk
      exact hm.out (by omega) j hl hj
    refine h.restage hlive hm hj hlife ⟨nofun,nofun⟩ hothers ⟨rfl,rfl,rfl,rfl,rfl⟩ fun c hc hal => ?_
    by_cases hct : c = f.temp
    · rw [hct] at hal ⊢
      exact (hkeep hk).trans hal
    · exact (ha c hct).trans hal

theorem Agree.start (hpc : (s.threads t).pc = .tfRun f) :
    Agree (((s.setPc f.thread .user).setStage f.proc (.alive f.thread)).setPc t .user) := by
  have hlive : (s.threads t).pc.live = true := by rw [hpc]; rfl
  have hforking : (s.threads t).pc.forking = some (f, 7) := by rw [hpc]; rfl
  have hm := (h.threads t).fork f 7 hforking
  have hft := hm.thread_ne hlive
  obtain ⟨hslot,htab⟩ := hm.listed (by omega)
  obtain ⟨hptr,hproc⟩ := hm.ptr (by omega)
  have htpid := hm.tpid (by omega)
  set s' := ((s.setPc f.thread .user).setStage f.proc (.alive f.thread)).setPc t .user with hs'
  have hlife : s'.life f.proc = { s.life f.proc with stage := .alive f.thread } :=
    life_setLife _ _ _
  have hothers : ∀ n, n ≠ f.proc → s'.life n = s.life n := fun n hn => update_of_ne hn _ _
  have hfth : s'.threads f.thread = { s.threads f.thread with pc := .user } := by
    rw [hs',threads_setPc_ne _ hft]
    exact threads_setPc_self _ _ _
  have hasleep := (h.threads f.thread).owns_nothing (by rw [hm.thread]; rfl)
  have hphase : ∀ ph, (s.threads t).pc.allows ph = true → Pc.user.allows ph = true := by
    rw [hpc]
    exact fun _ => id
  refine h.build hlive hforking ?_ ?_ hphase ⟨rfl,rfl,rfl,trivial⟩ (fun f' k'' hf' => ?_)
    (fun hst => ?_) (.inr ?_) (fun j hl hj => ?_)
  · constructor
    case thread =>
      intro u hu huf
      rw [hs',threads_setPc_ne _ hu]
      exact threads_setPc_ne s huf .user
    case sleepers => rfl
    case life => exact hothers
    case slot => exact fun _ _ => ⟨rfl,rfl⟩
    case added => exact fun _ _ _ _ hi => hi
    case vacant => exact h.vacant
    case next => rfl
    case cell => exact fun c hc => ⟨rfl,rfl⟩
    case cvs => exact fun _ _ _ hc => hc
    case procOf => rfl
    case phase => rw [hlife]; exact hm.phase
    case parent => rw [hlife]
    case stage => rw [hlife]; exact .inr (.inl rfl)
  · rw [hs',threads_setPc_self]
    have := threads_setPc_ne s hft.symm .user
    exact congrArg (fun x : Thread => ({ x with pc := .user } : Thread)) this
  · cases hf'
  · rw [hlife] at hst
    cases hst
  · constructor <;> rw [hfth]
    case alive => intro _; rw [hproc,hlife]
    case slot => intro _; rw [htpid,hproc]; exact hslot
    case table => intro _; rw [htpid,hptr]; exact htab
    case phase => intro _; rw [hproc,hlife,hm.phase]; rfl
    case exit => nofun
    case fork => nofun
    case wait => nofun
    case needs => trivial
    case reap => nofun
    case makes =>
      intro n hn
      by_cases hnf : n = f.proc
      · rw [hnf,hlife] at hn
        cases hn
      · rw [hothers n hnf] at hn
        exact absurd hn (hasleep n).1
    case reaps =>
      intro n hn
      by_cases hnf : n = f.proc
      · rw [hnf,hlife] at hn
        cases hn
      · rw [hothers n hnf] at hn
        exact absurd hn (hasleep n).2
  · exact h.restage hlive hm hj hlife ⟨nofun,nofun⟩ hothers ⟨rfl,rfl,rfl,rfl,rfl⟩ fun _ _ hal => hal

theorem Agree.startFork {thread temp : Nat} (hpc : (s.threads t).pc = .user)
    (hthread : (s.threads thread).pc = .unborn ∨ (s.threads thread).pc = .zombie)
    (htemp : s.alloc temp = false) : Agree (startFork s t thread temp) := by
  have hlive : (s.threads t).pc.live = true := by rw [hpc]; rfl
  have hal := (h.threads t).alive hlive
  have hown := h.own_entry hlive
  have hnew := h.fresh s.next (Nat.le_refl _)
  have hidle : (s.threads thread).pc.idle t = true := by rcases hthread with hx | hx <;> rw [hx] <;> rfl
  have htt : thread ≠ t := fun heq => by
    rw [heq,hpc] at hidle
    cases hidle
  have hnone : ∀ i hl, s.slot i ≠ some (s.next, hl) := fun i hl hi => by
    obtain ⟨c,hc⟩ := h.entry i _ hl hi
    exact Nat.lt_irrefl _ hc.old
  have hlife : (OS161.Proc.startFork s t thread temp).life s.next =
      ⟨.making t,(s.threads t).proc,-1,-1,.running,none⟩ := update_self _ _ _
  have hthr : (OS161.Proc.startFork s t thread temp).threads t =
      { s.threads t with pc := .cpCv ⟨temp,thread,s.next⟩ } := update_self _ _ _
  have hfth : (OS161.Proc.startFork s t thread temp).threads thread =
      { s.threads thread with pc := .created t } :=
    (update_of_ne htt _ _).trans (update_self _ _ _)
  have hcell : ∀ c, s.alloc c = true → c ≠ temp := fun c hc heq => by
    rw [heq,htemp] at hc
    cases hc
  have hadded : ∀ c, (OS161.Proc.startFork s t thread temp).alloc c = true → s.alloc c = false →
      c = temp := fun c hc hc' => by
    by_contra hne
    have hup : update s.alloc temp true c = true := hc
    rw [update_of_ne hne,hc'] at hup
    cases hup
  have hT : Touches s (OS161.Proc.startFork s t thread temp) t s.next := by
    constructor
    case self => exact .inr hlive
    case thread =>
      intro u hu hid
      have hut : u ≠ thread := fun heq => by
        rw [heq,hidle] at hid
        cases hid
      exact (update_of_ne hu _ _).trans (update_of_ne hut _ _)
    case asleep => exact fun _ _ _ _ hin _ => .inl hin
    case life => exact fun n hn => update_of_ne hn _ _
    case slot => exact fun _ _ _ _ => Iff.rfl
    case table => exact fun _ _ _ _ _ => rfl
    case vacant => exact h.vacant
    case next => exact .inr ⟨rfl,rfl⟩
    case cell =>
      exact fun c hc _ => ⟨(update_of_ne (hcell c hc) _ _).trans hc,rfl,id⟩
    case procOf => exact fun c hc => update_of_ne (hcell c hc) _ _
    case cells =>
      intro c hc hc'
      rw [hadded c hc hc']
      exact ⟨update_self _ _ _,rfl⟩
    case newest => exact fun c d hc hd hc' hd' => (hadded c hc hc').trans (hadded d hd hd').symm
    case owned => intro u _ heq; rw [hnew.1] at heq; cases heq
    case claimed =>
      intro u hu
      rw [hlife]
      exact ⟨fun hx => hu (Stage.making.inj hx).symm,nofun⟩
    case phase => intro hx; exact absurd hnew.2 hx
    case exited => intro hx; rw [hnew.2] at hx; cases hx
    case pid => intro hx; rw [hnew.1] at hx; cases hx
    case grown => intro hx; rw [hnew.1] at hx; cases hx
    case parent => rw [hlife]; exact ⟨hown.old,by rw [hal]; rfl⟩
  refine h.touch hT (fun i hl hi => absurd hi (hnone i hl)) ?_ (fun u hu hid => .inl ?_)
    (fun u w _ _ hw hm => absurd (hm ▸ hw.slot) (hnone _ _))
  · refine hT.self_local h hlive (Nat.ne_of_lt hown.old) hthr (by rw [hpc]; exact fun _ => id)
      ⟨rfl,rfl,trivial⟩ (by rw [hpc]; nofun) (by rw [hpc]; nofun) (fun f' k' hf' => ?_)
      (fun _ => ⟨⟨temp,thread,s.next⟩,0,rfl,rfl⟩) nofun (fun hst => ?_)
    · cases hf'
      constructor
      case stage => rw [hlife]
      case parent => rw [hlife,hthr]
      case phase => rw [hlife]
      case old => exact Nat.lt_succ_self _
      case thread => rw [hfth]
      case cell => exact ⟨update_self _ _ _,update_self _ _ _⟩
      case out => exact fun _ => hnone
      all_goals intro hx; omega
    · rw [hlife] at hst
      cases hst
  · by_cases hut : u = thread
    · rw [hut,hfth]
      rfl
    · have : (OS161.Proc.startFork s t thread temp).threads u = s.threads u :=
        (update_of_ne hu _ _).trans (update_of_ne hut _ _)
      rw [this]
      exact Pc.live_of_idle hid

end Effects

end OS161.Proc
