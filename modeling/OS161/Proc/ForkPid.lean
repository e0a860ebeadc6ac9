import OS161.Proc.Course

namespace OS161.Proc

open Function

def deadbeef : Int := -559038737

structure World where
  state : State
  newthread : Nat → Option (Nat × Nat)
  destroyed : Nat → Bool
  stale : Nat → Option Int
  entered : Nat → Option Int
  returned : List (Nat × Int)

inductive Event where
  | act (act : Act)
  | read (t : Nat)
  | ignore (t : Nat)
  | exorcise (u : Nat)
  | overwrite (u : Nat) (v : Int)

namespace World

def boot (mem : Nat → Process) : World where
  state := Proc.boot mem
  newthread := fun _ => none
  destroyed := fun _ => false
  stale := fun _ => none
  entered := fun _ => none
  returned := []

def pidWord (x : World) (u : Nat) : Int := (x.stale u).getD (x.state.threads u).pid

def may (x : World) : Act → Bool
  | .thread t choice => (x.newthread t).isNone && match choice with
    | .fork u _ => (x.state.threads u).pc ≠ .zombie || x.destroyed u
    | _ => true
  | _ => true

def note (x : World) : Act → World
  | .thread t choice =>
    match (x.state.threads t).pc, choice with
    | .user, .fork u (some _) => { x with destroyed := Function.update x.destroyed u false }
    | .cpChild .threadPid f _, _ => { x with stale := Function.update x.stale f.thread none }
    | .cpChild .table f _, _ =>
      { x with entered := Function.update x.entered f.proc (some (x.state.mem f.temp).pid) }
    | .tfRun f, .kmalloc true =>
      { x with newthread := Function.update x.newthread t (some (f.thread, f.proc)) }
    | _, _ => x
  | _ => x

def step (x : World) : Event → Option World
  | .act act =>
    if x.may act then (Proc.step x.state act).map fun s => { x.note act with state := s } else none
  | .read t =>
    match x.newthread t with
    | none => none
    | some (u, n) => some { x with
        newthread := Function.update x.newthread t none
        returned := (n, x.pidWord u) :: x.returned }
  | .ignore t =>
    if (x.newthread t).isSome then
      some { x with newthread := Function.update x.newthread t none }
    else none
  | .exorcise u =>
    if (x.state.threads u).pc = .zombie ∧ x.destroyed u = false then
      some { x with
        destroyed := Function.update x.destroyed u true
        stale := Function.update x.stale u (some deadbeef) }
    else none
  | .overwrite u v =>
    if x.destroyed u then some { x with stale := Function.update x.stale u (some v) } else none

def ReadInTime (x : World) : Event → Prop
  | .act act => Tidy x.state act
  | .exorcise u => ∀ t n, x.newthread t ≠ some (u, n)
  | _ => True

structure Owed (x : World) : Prop where
  build : ∀ t f k, (x.state.threads t).pc.forking = some (f, k) → x.destroyed f.thread = false ∧
    (6 ≤ k → x.stale f.thread = none) ∧
    (7 ≤ k → x.entered f.proc = some (x.state.life f.proc).pid)
  unread : ∀ t u n, x.newthread t = some (u, n) →
    ((x.state.threads u).pc.live = true ∨ (x.state.threads u).pc = .zombie) ∧
    x.destroyed u = false ∧ x.stale u = none ∧
    x.entered n = some (x.state.threads u).pid ∧ (x.state.life n).stage.grown = true
  returned : ∀ n v, (n, v) ∈ x.returned →
    x.entered n = some v ∧ (x.state.life n).stage.grown = true

section
variable (x : World) {t : Nat} {choice : Choice}

theorem destroyed_note {u : Nat} (act : Act) (h : x.destroyed u = false) :
    (x.note act).destroyed u = false := by
  cases act with
  | scribble | overrun => exact h
  | thread t choice =>
    simp only [note]
    split
    · rename_i v _ _
      rcases eq_or_ne u v with rfl | hne
      · exact update_self _ _ _
      · exact (update_of_ne hne _ _).trans h
    all_goals exact h

theorem stale_note {u : Nat} (act : Act) (h : x.stale u = none) : (x.note act).stale u = none := by
  cases act with
  | scribble | overrun => exact h
  | thread t choice =>
    simp only [note]
    split
    case h_2 f _ _ =>
      rcases eq_or_ne u f.thread with rfl | hne
      · exact update_self _ _ _
      · exact (update_of_ne hne _ _).trans h
    all_goals exact h

theorem entered_note {n : Nat} (h : ∀ f i, (x.state.threads t).pc = .cpChild .table f i → n ≠ f.proc) :
    (x.note (.thread t choice)).entered n = x.entered n := by
  simp only [note]
  split
  case h_3 f i hpc => exact update_of_ne (h f i hpc) _ _
  all_goals rfl

theorem newthread_note (t v : Nat) (choice : Choice) :
    (x.note (.thread t choice)).newthread v = x.newthread v ∨
    v = t ∧ ∃ f, (x.state.threads t).pc = .tfRun f ∧ choice = .kmalloc true ∧
      (x.note (.thread t choice)).newthread v = some (f.thread, f.proc) := by
  simp only [note]
  split
  case h_4 f hpc =>
    rcases eq_or_ne v t with rfl | hne
    · exact .inr ⟨rfl,f,hpc,rfl,update_self _ _ _⟩
    · exact .inl (update_of_ne hne _ _)
  all_goals exact .inl rfl

theorem returned_note (act : Act) : (x.note act).returned = x.returned := by
  cases act with
  | scribble | overrun => rfl
  | thread t choice =>
    simp only [note]
    split <;> rfl

end

end World

section
variable {s s' : State} {t : Nat} {choice : Choice}

theorem Ages.pid {n : Nat} (ha : Ages s s' t choice n) (hn : n ≠ s.next)
    (hfork : ∀ f k, (s.threads t).pc.forking = some (f, k) → n ≠ f.proc) :
    (s'.life n).pid = (s.life n).pid := by
  cases ha with
  | born hx => exact absurd hx hn
  | renumber hf hx => exact absurd hx (hfork _ _ hf)
  | same hlife | call _ _ _ hlife | stop _ _ hlife | code _ _ hlife | claim _ _ _ _ _ hlife
  | gone _ _ hlife | ended _ _ hlife | lost _ _ _ hlife | start _ _ hlife => rw [hlife]

theorem step_tfRun {f : Fork} (hpc : (s.threads t).pc = .tfRun f)
    (hstep : step s (.thread t (.kmalloc true)) = some s') :
    s' = ((s.setPc f.thread .user).setStage f.proc (.alive f.thread)).setPc t .user := by
  obtain ⟨-,hmove⟩ := threadStep_cases hstep
  rw [hpc] at hmove
  rcases hmove with ⟨hx,-⟩ | ⟨g,cv,hx,-⟩ | ⟨g,run,ok,hx,hok,hs⟩ | ⟨hx,-⟩
  · cases hx
  · cases hx
  · cases run <;> cases hx
    cases hok
    exact hs.symm
  · cases hx

variable (A : Agree s.forget)
include A

theorem Agree.maker {u : Nat} {f g : Fork} {k l : Nat} (hf : (s.threads u).pc.forking = some (f, k))
    (hg : (s.threads t).pc.forking = some (g, l)) (heq : f.proc = g.proc) : u = t := by
  have hstage := (A.made hf).stage
  rw [heq,(A.made hg).stage] at hstage
  exact (Stage.making.inj hstage).symm

theorem Effect.grown_kept (he : Effect s t choice s') (htidy : Tidy s (.thread t choice)) {n : Nat}
    (hg : (s.life n).stage.grown = true) : (s'.life n).stage.grown = true := by
  have hnext := (he.ages n).next A htidy
  generalize (s'.life n).stage = st' at hnext ⊢
  generalize (s.life n).stage = st at hnext hg
  cases hnext with
  | stay => exact hg
  | born => cases hg
  | _ => rfl

theorem Effect.begun_kept (he : Effect s t choice s') {u : Nat}
    (hpc : (s.threads u).pc.live = true ∨ (s.threads u).pc = .zombie)
    (hfork : ∀ temp, choice = .fork u temp → (s.threads u).pc ≠ .zombie) :
    (s'.threads u).pid = (s.threads u).pid ∧
      ((s'.threads u).pc.live = true ∨ (s'.threads u).pc = .zombie) := by
  rcases eq_or_ne u t with rfl | hne
  · obtain ⟨pc,hth,hlive | ⟨hz,-⟩⟩ := he.self A
    · rw [hth]
      exact ⟨rfl,.inl hlive⟩
    · rw [hth]
      exact ⟨rfl,.inr hz⟩
  · have hsame : s'.threads u = s.threads u := by
      rcases hpc with hlive | hz
      · exact he.other A hne hlive
      · exact he.zombie_kept A hne hz fun temp hx => hfork temp hx hz
    rw [hsame]
    exact ⟨rfl,hpc⟩

end

theorem Pc.table_of_forking {pc : Pc} {f : Fork} (h : pc.forking = some (f, 6)) :
    ∃ i, pc = .cpChild .table f i := by
  cases pc with
  | cpChild st g i => cases st <;> cases h; exact ⟨i,rfl⟩
  | lockCheck r | lockTry r => cases r <;> cases h
  | _ => cases h

namespace World
variable {x : World} {s' : State} {t : Nat} {choice : Choice}

theorem newthread_of_update {v u n : Nat}
    (h : Function.update x.newthread t none v = some (u, n)) : x.newthread v = some (u, n) := by
  rcases eq_or_ne v t with rfl | hne
  · rw [update_self] at h
    cases h
  · rwa [update_of_ne hne] at h

theorem Owed.entered_kept (A : Agree x.state.forget) {n : Nat}
    (hg : (x.state.life n).stage.grown = true) :
    (x.note (.thread t choice)).entered n = x.entered n := by
  refine x.entered_note fun f i hpc heq => ?_
  have hstage := (A.made (t := t) (k := 6) (by rw [hpc]; rfl)).stage
  rw [← heq] at hstage
  rw [hstage] at hg
  cases hg

section
variable (h : Owed x) (A : Agree x.state.forget)
  (hstep : Proc.step x.state (.thread t choice) = some s')
include h A hstep

theorem Owed.unread_kept (hmay : x.may (.thread t choice) = true)
    (htidy : Tidy x.state (.thread t choice)) {v u n : Nat}
    (hnew : (x.note (.thread t choice)).newthread v = some (u, n)) :
    ((s'.threads u).pc.live = true ∨ (s'.threads u).pc = .zombie) ∧
      (x.note (.thread t choice)).destroyed u = false ∧ (x.note (.thread t choice)).stale u = none ∧
      (x.note (.thread t choice)).entered n = some (s'.threads u).pid ∧
      (s'.life n).stage.grown = true := by
  have he := effect_of_step A hstep
  rcases x.newthread_note t v choice with hold | ⟨rfl,f,hpc,rfl,hx⟩
  · rw [hold] at hnew
    obtain ⟨hpc,hdes,hstale,hent,hgrown⟩ := h.unread v u n hnew
    have hfork : ∀ temp, choice = .fork u temp → (x.state.threads u).pc ≠ .zombie := by
      rintro temp rfl hz
      simp [may,hz,hdes] at hmay
    obtain ⟨hpid,hpc'⟩ := he.begun_kept A hpc hfork
    refine ⟨hpc',x.destroyed_note _ hdes,x.stale_note _ hstale,?_,he.grown_kept A htidy hgrown⟩
    rw [Owed.entered_kept A hgrown,hpid]
    exact hent
  · rw [hx] at hnew
    cases hnew
    have hfork : (x.state.threads v).pc.forking = some (f, 7) := by rw [hpc]; rfl
    obtain ⟨hdes,hstale,hent⟩ := h.build v f 7 hfork
    have hm := A.made hfork
    have hth : s'.threads f.thread = { x.state.threads f.thread with pc := .user } := by
      rw [step_tfRun hpc hstep,State.threads_setPc_ne _ (A.made_ne hfork).symm]
      exact State.threads_setPc_self _ _ _
    refine ⟨.inl (by rw [hth]; rfl),x.destroyed_note _ hdes,x.stale_note _ (hstale (by decide)),?_,?_⟩
    · rw [x.entered_note (fun g i hg => by cases hpc.symm.trans hg),hent (by decide),hth]
      exact congrArg some (hm.tpid (by decide)).symm
    · rw [step_tfRun hpc hstep]
      simp [State.setPc,State.setStage,State.setLife,Stage.grown]

theorem Owed.build_other {v k : Nat} {f : Fork} (hne : v ≠ t)
    (hf : (x.state.threads v).pc.forking = some (f, k)) :
    (x.note (.thread t choice)).destroyed f.thread = false ∧
      (6 ≤ k → (x.note (.thread t choice)).stale f.thread = none) ∧
      (7 ≤ k → (x.note (.thread t choice)).entered f.proc = some (s'.life f.proc).pid) := by
  have he := effect_of_step A hstep
  obtain ⟨hdes,hstale,hent⟩ := h.build v f k hf
  refine ⟨x.destroyed_note _ hdes,fun hk => x.stale_note _ (hstale hk),fun hk => ?_⟩
  have hmaker : ∀ g l, (x.state.threads t).pc.forking = some (g, l) → f.proc ≠ g.proc :=
    fun g l hg heq => hne (A.maker hf hg heq)
  rw [x.entered_note fun g i hpc => hmaker g 6 (by rw [hpc]; rfl),hent hk,
    (he.ages f.proc).pid (Nat.ne_of_lt (A.made hf).old) hmaker]

theorem Owed.build_self {k : Nat} {f : Fork} (hf : (s'.threads t).pc.forking = some (f, k)) :
    (x.note (.thread t choice)).destroyed f.thread = false ∧
      (6 ≤ k → (x.note (.thread t choice)).stale f.thread = none) ∧
      (7 ≤ k → (x.note (.thread t choice)).entered f.proc = some (s'.life f.proc).pid) := by
  have he := effect_of_step A hstep
  have hto : ∀ {s₁ : State} {pc : Pc}, ((s₁.setPc t pc).threads t).pc.forking = some (f, k) →
      pc.forking = some (f, k) := fun hx => by rwa [State.threads_setPc_self] at hx
  have htable : k = 6 → (x.note (.thread t choice)).stale f.thread = none := by
    rintro rfl
    obtain ⟨i,hpc⟩ := Pc.table_of_forking hf
    obtain ⟨st,hwas⟩ := he.child hpc nofun
    obtain rfl := step_cpChild hwas hstep
    cases st with
    | threadPid => simp [note,hwas]
    | test =>
      simp only [childStmt] at hpc
      split at hpc <;> rw [State.threads_setPc_self] at hpc <;> cases hpc
    | _ =>
      rw [childStmt,State.threads_setPc_self] at hpc
      cases hpc
  cases he with
  | turn hturn =>
    have hwas := hturn.fork.symm.trans (hto hf)
    obtain ⟨hdes,hstale,hent⟩ := h.build t f k hwas
    refine ⟨x.destroyed_note _ hdes,fun hk => x.stale_note _ (hstale hk),fun hk => ?_⟩
    rw [x.entered_note]
    · exact hent hk
    · intro g i hpc
      rw [hpc] at hwas
      cases hwas
      omega
  | @write g l cvs p pid ppid pc hfork _ hpc _ hfollow | @enrol g l th pc hfork hpc _ hfollow =>
    have hk := hfollow.2 f k (hto hf)
    obtain ⟨k',hk'⟩ := hpc
    have hfg : f = g := (Prod.mk.inj (Option.some.inj ((hto hf).symm.trans hk'))).1
    obtain ⟨hdes,-⟩ := h.build t g l hfork
    exact ⟨x.destroyed_note _ (hfg ▸ hdes),fun hx => htable (by omega),fun hx => by omega⟩
  | @register g i hpc =>
    cases hto hf
    have hfork : (x.state.threads t).pc.forking = some (f, 6) := by rw [hpc]; rfl
    obtain ⟨hdes,hstale,-⟩ := h.build t f 6 hfork
    refine ⟨x.destroyed_note _ hdes,fun _ => x.stale_note _ (hstale (by decide)),fun _ => ?_⟩
    have hpid : (x.state.mem f.temp).pid = (x.state.life f.proc).pid :=
      (A.made hfork).pid (by decide)
    simpa [note,hpc,State.setPc] using hpid
  | @fork thread temp hpc _ _ hchoice =>
    have hx : f = ⟨temp,thread,x.state.next⟩ ∧ k = 0 := by
      simpa [startFork,Pc.forking,eq_comm] using hf
    obtain ⟨rfl,rfl⟩ := hx
    refine ⟨?_,fun hk => by omega,fun hk => by omega⟩
    simp [note,hpc,hchoice]
  | _ => cases hto hf

end

theorem Owed.act (h : Owed x) (A : Agree x.state.forget) {act : Act}
    (hstep : Proc.step x.state act = some s') (hmay : x.may act = true) (htidy : Tidy x.state act) :
    Owed { x.note act with state := s' } := by
  cases act with
  | thread t choice =>
    have he := effect_of_step A hstep
    refine ⟨fun v f k hf => ?_,fun v u n hnew => h.unread_kept A hstep hmay htidy hnew,
      fun n v hin => ?_⟩
    · rcases eq_or_ne v t with rfl | hne
      · exact h.build_self A hstep hf
      · have hth := he.unmoved A hne (Pc.stand_of_forking hf).2 fun hx => by rw [hx] at hf; cases hf
        exact h.build_other A hstep hne (hth ▸ hf)
    · rw [show ({ x.note (.thread t choice) with state := s' } : World).returned = x.returned from
        x.returned_note _] at hin
      obtain ⟨hent,hgrown⟩ := h.returned n v hin
      exact ⟨(Owed.entered_kept A hgrown).trans hent,he.grown_kept A htidy hgrown⟩
  | scribble c p =>
    obtain ⟨-,⟨⟩⟩ := Option.ite_none_left_eq_some.mp hstep
    exact ⟨h.build,h.unread,h.returned⟩
  | overrun => exact htidy.elim

theorem Owed.step (h : Owed x) (A : Agree x.state.forget) {x' : World} {ev : Event}
    (hok : x.ReadInTime ev) (hstep : x.step ev = some x') : Owed x' := by
  cases ev with
  | act act =>
    obtain ⟨hmay,hstep⟩ := Option.ite_none_right_eq_some.mp hstep
    obtain ⟨s',hs,rfl⟩ := Option.map_eq_some_iff.mp hstep
    exact h.act A hs hmay hok
  | read t =>
    simp only [World.step] at hstep
    split at hstep
    · cases hstep
    · rename_i u n hnew
      cases hstep
      obtain ⟨-,-,hstale,hent,hgrown⟩ := h.unread t u n hnew
      refine ⟨h.build,fun v u' n' hx => ?_,fun m w hin => ?_⟩
      · exact h.unread v u' n' (newthread_of_update hx)
      · rcases List.mem_cons.mp hin with heq | hin
        · cases heq
          refine ⟨hent.trans ?_,hgrown⟩
          rw [pidWord,hstale]
          rfl
        · exact h.returned m w hin
  | ignore t =>
    obtain ⟨-,⟨⟩⟩ := Option.ite_none_right_eq_some.mp hstep
    exact ⟨h.build,fun v u n hx => h.unread v u n (newthread_of_update hx),h.returned⟩
  | exorcise u =>
    obtain ⟨hz,⟨⟩⟩ := Option.ite_none_right_eq_some.mp hstep
    refine ⟨fun t f k hf => ?_,fun t v n hx => ?_,h.returned⟩
    · have hne : f.thread ≠ u := by
        rintro rfl
        have := (A.made hf).thread
        rw [hz.1] at this
        cases this
      simpa [update_of_ne hne] using h.build t f k hf
    · have hne : v ≠ u := by
        rintro rfl
        exact hok t n hx
      simpa [update_of_ne hne] using h.unread t v n hx
  | overwrite u w =>
    obtain ⟨hdes,⟨⟩⟩ := Option.ite_none_right_eq_some.mp hstep
    refine ⟨fun t f k hf => ?_,fun t v n hx => ?_,h.returned⟩
    · have hold := h.build t f k hf
      have hne : f.thread ≠ u := by
        rintro rfl
        rw [hold.1] at hdes
        cases hdes
      simpa [update_of_ne hne] using hold
    · have hold := h.unread t v n hx
      have hne : v ≠ u := by
        rintro rfl
        rw [hold.2.1] at hdes
        cases hdes
      simpa [update_of_ne hne] using hold

theorem Owed.boot (mem : Nat → Process) : Owed (World.boot mem) := by
  have hpc : ∀ u, ((Proc.boot mem).threads u).pc = .user ∨ ((Proc.boot mem).threads u).pc = .unborn := by
    intro u
    rcases eq_or_ne u 0 with rfl | hne
    · exact .inl rfl
    · exact .inr (by simp [Proc.boot,update_of_ne hne])
  refine ⟨fun t f k hf => ?_,(fun _ _ _ h => by cases h),(fun _ _ h => by cases h)⟩
  rcases hpc t with hx | hx <;> rw [show (World.boot mem).state = Proc.boot mem from rfl,hx] at hf <;>
    cases hf

theorem fork_returns_pid_along {mem : Nat → Process} {evs : List Event} {x : World}
    (hok : Run.Along step ReadInTime (World.boot mem) evs)
    (hrun : Run.exec step (World.boot mem) evs = some x) {n : Nat} {v : Int}
    (hret : (n, v) ∈ x.returned) : x.entered n = some v := by
  have hinv : Agree x.state.forget ∧ Owed x := by
    refine Run.invariant (I := fun x => Agree x.state.forget ∧ Owed x)
      (fun x ev x' ⟨hA,howed⟩ htime hstep => ⟨?_,howed.step hA htime hstep⟩)
      ⟨(agree_boot mem).forget,.boot mem⟩ hok hrun
    cases ev with
    | act act =>
      obtain ⟨-,hstep⟩ := Option.ite_none_right_eq_some.mp hstep
      obtain ⟨s',hs,rfl⟩ := Option.map_eq_some_iff.mp hstep
      exact hA.tidy_step htime hs
    | read t | ignore t | exorcise u | overwrite u w =>
      simp only [World.step] at hstep
      split at hstep <;> cases hstep
      exact hA
  exact (hinv.2.returned n v hret).1

def childRuns : List Event := (Act.thread 1 (.exit 7) :: runs 1 410).map .act

def readFirst (x : World) : Event → Bool
  | .act (.thread t _) =>
    match (x.state.threads t).pc with
    | .reapTest i => (x.state.table i).all fun c => (x.state.mem c).ppid ≠ (x.state.threads t).pid
    | .cpChild .table f _ => x.state.table (x.state.mem f.temp).pid = none
    | .tfRun _ => t = 0
    | _ => true
  | .act (.overrun _ _) => false
  | .exorcise _ => x.newthread 0 = none
  | _ => true

theorem readFirst_step {x x' : World} {ev : Event} (h : ∀ t, t ≠ 0 → x.newthread t = none)
    (hev : x.readFirst ev = true) (hstep : x.step ev = some x') {t : Nat} (ht : t ≠ 0) :
    x'.newthread t = none := by
  cases ev with
  | act act =>
    obtain ⟨-,hstep⟩ := Option.ite_none_right_eq_some.mp hstep
    obtain ⟨s',-,rfl⟩ := Option.map_eq_some_iff.mp hstep
    cases act with
    | scribble | overrun => exact h t ht
    | thread u choice =>
      rcases x.newthread_note u t choice with hold | ⟨rfl,f,hpc,-⟩
      · exact hold.trans (h t ht)
      · simp only [readFirst,hpc] at hev
        exact absurd (of_decide_eq_true hev) ht
  | read u | ignore u =>
    simp only [World.step] at hstep
    split at hstep <;> cases hstep
    rcases eq_or_ne t u with rfl | hne
    · exact update_self _ _ _
    · exact (update_of_ne hne _ _).trans (h t ht)
  | exorcise u | overwrite u w =>
    simp only [World.step] at hstep
    split at hstep <;> cases hstep
    exact h t ht

theorem readInTime_of_readFirst {x : World} {ev : Event} (h : ∀ t, t ≠ 0 → x.newthread t = none)
    (hev : x.readFirst ev = true) : x.ReadInTime ev := by
  cases ev with
  | act act =>
    cases act with
    | scribble => trivial
    | overrun => cases hev
    | thread t choice =>
      simp only [ReadInTime,Tidy]
      split
      · rename_i i hpc
        simp only [readFirst,hpc] at hev
        intro c n hl htab _ hppid
        simp [htab,hppid] at hev
      · rename_i f i hpc
        simp only [readFirst,hpc] at hev
        exact of_decide_eq_true hev
      · trivial
  | exorcise u =>
    intro t n
    rcases eq_or_ne t 0 with rfl | hne
    · rw [of_decide_eq_true hev]
      exact fun h => by cases h
    · rw [h t hne]
      exact fun h => by cases h
  | _ => trivial

theorem fork_returns_pid_before_exorcise :
    ∃ x, Run.exec step (World.boot fun _ => bootProcess 0)
        ((forkWhole 0 1 1 2).map .act ++ [.read 0] ++ childRuns ++ [.exorcise 1]) = some x ∧
      x.destroyed 1 = true ∧ x.returned = [(2, 102)] ∧ x.entered 2 = some 102 := by
  have hview : ((Run.exec step (World.boot fun _ => bootProcess 0)
      ((forkWhole 0 1 1 2).map .act ++ [.read 0] ++ childRuns ++ [.exorcise 1])).map
      fun x => decide (x.destroyed 1 = true ∧ x.returned = [(2, 102)])) = some true := by
    decide +kernel
  obtain ⟨x,hx,heq⟩ := Option.map_eq_some_iff.mp hview
  obtain ⟨hdes,hret⟩ := of_decide_eq_true heq
  have hchk : Run.check step readFirst (World.boot fun _ => bootProcess 0)
      ((forkWhole 0 1 1 2).map .act ++ [.read 0] ++ childRuns ++ [.exorcise 1]) = true := by
    decide +kernel
  have hok := Run.along_imp (I := fun x : World => ∀ t, t ≠ 0 → x.newthread t = none)
    (fun x ev x' h hev hstep t ht => readFirst_step h hev hstep ht)
    (fun x ev h hev => readInTime_of_readFirst h hev) (fun _ _ => rfl) (Run.along_of_check hchk)
  exact ⟨x,hx,hdes,hret,fork_returns_pid_along hok hx (by simp [hret])⟩

theorem fork_returns_deadbeef :
    ∃ x, Run.exec step (World.boot fun _ => bootProcess 0)
        ((forkWhole 0 1 1 2).map .act ++ childRuns ++ [.exorcise 1, .read 0]) = some x ∧
      x.returned = [(2, deadbeef)] ∧ x.entered 2 = some 102 := by
  have hview : ((Run.exec step (World.boot fun _ => bootProcess 0)
      ((forkWhole 0 1 1 2).map .act ++ childRuns ++ [.exorcise 1,.read 0])).map
      fun x => decide (x.returned = [(2, deadbeef)] ∧ x.entered 2 = some 102)) = some true := by
    decide +kernel
  obtain ⟨x,hx,heq⟩ := Option.map_eq_some_iff.mp hview
  exact ⟨x,hx,of_decide_eq_true heq⟩

end World

end OS161.Proc
