import OS161.Proc.Effect

namespace OS161.Proc

open Function State

inductive Ages (s s' : State) (t : Nat) (choice : Choice) (n : Nat) : Prop
  | same (hlife : s'.life n = s.life n)
  | renumber {f : Fork} {k : Nat} {pid ppid : Int}
      (hfork : (s.threads t).pc.forking = some (f, k)) (hn : n = f.proc)
      (hlife : s'.life n = { s.life n with pid := pid, ppid := ppid })
  | call {code : Int} (hpc : (s.threads t).pc = .user) (hchoice : choice = .exit code)
      (hn : n = (s.threads t).proc) (hlife : s'.life n = { s.life n with exitArg := some code })
  | stop {code : Int} {ptr : Nat} (hpc : (s.threads t).pc = .exitStatus code ptr)
      (hn : n = (s.threads t).proc) (hlife : s'.life n = { s.life n with phase := .stopping })
      (hstop : (s'.mem ptr).status = .stop)
  | code {code : Int} {ptr : Nat} (hpc : (s.threads t).pc = .exitCode code ptr)
      (hn : n = (s.threads t).proc) (hlife : s'.life n = { s.life n with phase := .exited })
  | claim {i : Int} {c : Nat} {h : Health} (hpc : (s.threads t).pc = .reapTest i)
      (hslot : s.slot i = some (n, h)) (htab : s.table i = some c)
      (hppid : (s.mem c).ppid = (s.threads t).pid) (hstop : (s.mem c).status = .stop)
      (hlife : s'.life n = { s.life n with stage := .reaping t })
  | gone {i : Int} {h : Health} (hpc : (s.threads t).pc = .reapNull i)
      (hslot : s.slot i = some (n, h)) (hlife : s'.life n = { s.life n with stage := .gone })
  | ended (hpc : (s.threads t).pc = .exitRelease) (hn : n = (s.threads t).proc)
      (hlife : s'.life n = { s.life n with stage := .ended })
  | born (hn : n = s.next)
      (hlife : s'.life n = ⟨.making t, (s.threads t).proc, -1, -1, .running, none⟩)
  | lost {f : Fork} {k : Nat} (hfork : (s.threads t).pc.forking = some (f, k)) (hn : n = f.proc)
      (hk : k ≤ 2 ∨ k = 7 ∧ choice = .kmalloc false) (hlife : s'.life n = { s.life n with stage := .lost })
  | start {f : Fork} (hpc : (s.threads t).pc = .tfRun f) (hn : n = f.proc)
      (hlife : s'.life n = { s.life n with stage := .alive f.thread })
      (hth : f.thread ≠ t → s'.threads f.thread = { s.threads f.thread with pc := .user })

def Stand.closing : Stand → Bool
  | .scanning _ | .finishing => true
  | _ => false

inductive Strides (s s' : State) (t : Nat) (choice : Choice) : Prop
  | keep (hst : (s'.threads t).pc.stand = (s.threads t).pc.stand)
  | away (hst : (s'.threads t).pc.stand.closing = false)
  | leave (hchoice : choice = .ret)
  | signal {cv : Nat} (hpc : (s.threads t).pc = .exitSignal cv)
      (hst : (s'.threads t).pc.stand = .scanning minpid)
  | pass {i : Int} (hpc : (s.threads t).pc = .scan i ∨ (s.threads t).pc = .reapTest i)
      (hskip : ∀ c, s.table i = some c →
        ¬ ((s.mem c).ppid = (s.threads t).pid ∧ (s.mem c).status = .stop))
      (hst : (s'.threads t).pc.stand = .scanning (i + 1))
  | null {i : Int} (hpc : (s.threads t).pc = .reapNull i)
      (hst : (s'.threads t).pc.stand = .scanning (i + 1))
  | finish {i : Int} (hpc : (s.threads t).pc = .scan i) (hi : maxpid < i)

inductive Shows (s : State) (t : Nat) (i : Int) : Option Nat → Option (Nat × Health) → Prop
  | same : Shows s t i (s.table i) (s.slot i)
  | mark {h : Health} (hpc : (s.threads t).pc = .reapCv i ∨ (s.threads t).pc = .reapFree i) :
      Shows s t i (s.table i) ((s.slot i).map fun x => (x.1, h))
  | clear (hpc : (s.threads t).pc = .reapNull i) : Shows s t i none none
  | enter {f : Fork} {j : Int} (hpc : (s.threads t).pc = .cpChild .table f j)
      (hi : i = (s.mem f.temp).pid) : Shows s t i (some f.temp) (some (f.proc, .sound))

inductive Stores (s : State) (t c : Nat) : Process → Prop
  | same : Stores s t c (s.mem c)
  | stop {code : Int} (hpc : (s.threads t).pc = .exitStatus code c) :
      Stores s t c { s.mem c with status := .stop }
  | code {code : Int} (hpc : (s.threads t).pc = .exitCode code c) :
      Stores s t c { s.mem c with exitcode := code }
  | write {f : Fork} {k : Nat} {p : Process} (hfork : (s.threads t).pc.forking = some (f, k))
      (hk : k ≤ 4) (hc : c = f.temp) : Stores s t c p

theorem Pc.live_of_stand {pc : Pc} (h : pc.stand ≠ .out) : pc.live = true := by
  cases pc <;> first | rfl | exact absurd rfl h

theorem Pc.stand_of_live {pc : Pc} (h : pc.live = true) : pc.stand ≠ .out := by
  cases pc with
  | unborn | created | zombie => cases h
  | lockCheck r | lockTry r => cases r <;> exact nofun
  | _ => exact nofun

theorem Pc.stand_of_forking {pc : Pc} {x : Fork × Nat} (h : pc.forking = some x) :
    pc.stand = .inside ∧ pc.live = true := by
  cases pc with
  | lockCheck r | lockTry r => cases r <;> first | exact ⟨rfl,rfl⟩ | cases h
  | _ => first | exact ⟨rfl,rfl⟩ | cases h

theorem reapStage_life (s : State) (i : Int) (stage : Stage) :
    reapStage s i stage = { s with life := (reapStage s i stage).life } := by
  unfold reapStage
  split <;> rfl

section
variable {s s' : State} {t : Nat} {choice : Choice}

theorem Effect.live (he : Effect s t choice s') : (s.threads t).pc.live = true := by
  have hgo : ∀ {pc : Pc}, (s.threads t).pc = pc → pc.live = true → (s.threads t).pc.live = true :=
    fun hpc hl => hpc ▸ hl
  cases he with
  | turn hturn => exact hturn.live
  | pass hpc => exact hpc.elim (hgo · rfl) (hgo · rfl)
  | write hfork | enrol hfork | discard hfork | abandon hfork => exact (Pc.stand_of_forking hfork).2
  | call hpc | leave hpc | stop hpc | code hpc | signal hpc | finish hpc | claim hpc | spoil hpc
  | free hpc | null hpc | retire hpc | fork hpc | register hpc | start hpc => exact hgo hpc rfl

theorem Effect.strides (he : Effect s t choice s') : Strides s s' t choice := by
  have hto : ∀ (s₁ : State) (pc : Pc), ((s₁.setPc t pc).threads t).pc.stand = pc.stand := fun s₁ pc => by
    rw [threads_setPc_self]
  have haway : ∀ {s₁ : State} {pc : Pc}, pc.stand.closing = false →
      ((s₁.setPc t pc).threads t).pc.stand.closing = false := fun hx => by rwa [hto]
  have hfork : ∀ {s₁ : State} {pc : Pc} {f : Fork}, (∃ k, pc.forking = some (f, k)) →
      ((s₁.setPc t pc).threads t).pc.stand.closing = false := fun hx =>
    haway (by rw [(Pc.stand_of_forking hx.choose_spec).1]; rfl)
  cases he with
  | turn hturn => exact .keep ((hto _ _).trans hturn.stand)
  | leave _ hchoice => exact .leave hchoice
  | signal hpc => exact .signal hpc (hto _ _)
  | pass hpc hskip => exact .pass hpc hskip (hto _ _)
  | finish hpc hi => exact .finish hpc hi
  | claim hpc | spoil hpc | free hpc => exact .keep ((hto _ _).trans (by rw [hpc]; rfl))
  | null hpc => exact .null hpc (hto _ _)
  | fork => exact .away (by simp [startFork,Pc.stand,Stand.closing])
  | write _ _ hpc | enrol _ hpc => exact .away (hfork hpc)
  | call | stop | code | retire | register | discard | abandon | start => exact .away (haway rfl)

theorem Ages.of_setLife {n m : Nat} {l : Life} (hs : s'.life = Function.update s.life m l)
    (hl : n = m → s'.life n = l → Ages s s' t choice n) : Ages s s' t choice n := by
  rcases eq_or_ne n m with rfl | hne
  · exact hl rfl (by rw [hs,update_self])
  · exact .same (by rw [hs,update_of_ne hne])

theorem Ages.of_reapStage {i : Int} {n : Nat} {stage : Stage}
    (hs : s'.life = (reapStage s i stage).life)
    (hl : ∀ hh, s.slot i = some (n, hh) → s'.life n = { s.life n with stage := stage } →
      Ages s s' t choice n) : Ages s s' t choice n := by
  unfold reapStage at hs
  split at hs
  · exact .same (congrFun hs n)
  · rename_i m hh hslot
    refine .of_setLife hs fun hn heq => ?_
    rw [← hn] at hslot heq
    exact hl hh hslot heq

theorem Effect.ages (he : Effect s t choice s') (n : Nat) : Ages s s' t choice n := by
  cases he with
  | call hpc hchoice => exact .of_setLife rfl fun hn hl => .call hpc hchoice hn (hn ▸ hl)
  | stop hpc =>
    refine .of_setLife rfl fun hn hl => .stop hpc hn (hn ▸ hl) ?_
    simp [State.setPc,State.setLife,State.setMem]
  | code hpc => exact .of_setLife rfl fun hn hl => .code hpc hn (hn ▸ hl)
  | claim hpc htab hppid hstop =>
    exact .of_reapStage rfl fun hh hslot hl => .claim hpc hslot htab hppid hstop hl
  | null hpc => exact .of_reapStage rfl fun hh hslot hl => .gone hpc hslot hl
  | retire hpc => exact .of_setLife rfl fun hn hl => .ended hpc hn (hn ▸ hl)
  | fork => exact .of_setLife rfl fun hn hl => .born hn hl
  | write hfork =>
    refine .of_setLife rfl fun hn hl => ?_
    subst hn
    exact .renumber hfork rfl hl
  | discard hfork hk => exact .of_setLife rfl fun hn hl => .lost hfork hn (.inl hk) (hn ▸ hl)
  | abandon hfork hchoice =>
    exact .of_setLife rfl fun hn hl => .lost hfork hn (.inr ⟨rfl,hchoice⟩) (hn ▸ hl)
  | start hpc =>
    refine .of_setLife rfl fun hn hl => .start hpc hn (hn ▸ hl) fun hne => ?_
    exact (threads_setPc_ne _ hne _).trans (threads_setPc_self _ _ _)
  | _ => exact .same rfl

theorem Effect.shows (he : Effect s t choice s') (i : Int) :
    Shows s t i (s'.table i) (s'.slot i) := by
  have hmark : ∀ j hh, (s.threads t).pc = .reapCv j ∨ (s.threads t).pc = .reapFree j →
      Shows s t i (s.table i) (update s.slot j ((s.slot j).map fun x => (x.1, hh)) i) := by
    intro j hh hpc
    rcases eq_or_ne i j with rfl | hne
    · rw [update_self]
      exact .mark hpc
    · rw [update_of_ne hne]
      exact .same
  cases he with
  | claim =>
    rw [reapStage_life]
    exact .same
  | spoil hpc => exact hmark _ _ (.inl hpc)
  | free hpc => exact hmark _ _ (.inr hpc)
  | @null j hpc =>
    rcases eq_or_ne i j with rfl | hne
    · simpa [State.setPc] using Shows.clear hpc
    · simpa [State.setPc,update_of_ne hne] using Shows.same
  | @register f j hpc =>
    rcases eq_or_ne i (s.mem f.temp).pid with rfl | hne
    · simpa [State.setPc] using Shows.enter hpc rfl
    · simpa [State.setPc,update_of_ne hne] using Shows.same
  | _ => exact .same

theorem Stores.of_setMem {c d : Nat} {p : Process} (hp : c = d → Stores s t c p) :
    Stores s t c (Function.update s.mem d p c) := by
  rcases eq_or_ne c d with rfl | hne
  · rw [update_self]
    exact hp rfl
  · rw [update_of_ne hne]
    exact .same

theorem Effect.stores (he : Effect s t choice s') (c : Nat) : Stores s t c (s'.mem c) := by
  cases he with
  | stop hpc => exact .of_setMem fun hc => hc ▸ .stop (hc ▸ hpc)
  | code hpc => exact .of_setMem fun hc => hc ▸ .code (hc ▸ hpc)
  | write hfork hk => exact .of_setMem fun hc => .write hfork hk hc
  | claim | null =>
    rw [reapStage_life]
    exact .same
  | _ => exact .same

end

section Facts
variable {s s' : State} {t : Nat} {choice : Choice} (h : Agree s.forget)
include h

theorem Agree.made {f : Fork} {k : Nat} (hf : (s.threads t).pc.forking = some (f, k)) :
    Making s t f k := by
  have hm := (h.threads t).fork f k ((Pc.forking_forget _).trans hf)
  have hthread : (s.threads f.thread).pc.forget = .created t := hm.thread
  refine ⟨hm.stage,hm.parent,hm.phase,hm.old,?_,hm.cell,hm.cv,hm.pid,hm.ppid,hm.status,hm.ptr,
    hm.tpid,hm.out,hm.listed⟩
  generalize (s.threads f.thread).pc = pc at hthread
  cases pc <;> first | exact hthread | cases hthread

theorem Agree.made_dead {f : Fork} {k : Nat} (hf : (s.threads t).pc.forking = some (f, k)) :
    (s.threads f.thread).pc.live = false := by
  rw [(h.made hf).thread]
  rfl

theorem Agree.made_ne {f : Fork} {k : Nat} (hf : (s.threads t).pc.forking = some (f, k)) :
    t ≠ f.thread := by
  intro heq
  have := (Pc.stand_of_forking hf).2
  rw [heq,h.made_dead hf] at this
  cases this

section
variable {u : Nat} (he : Effect s t choice s') (hne : u ≠ t)
include he hne

theorem Effect.others :
    s'.threads u = s.threads u ∨ (s.threads u).pc.live = false ∧
      ((s'.threads u).pc.live = false ∨
        (∃ f, (s.threads t).pc = .tfRun f) ∧ s'.threads u = { s.threads u with pc := .user }) := by
  have hnew : ∀ {v : Nat} {th th' : Thread}, (s.threads v).pc.live = false →
      (v = u → th.pc.live = false ∨
        (∃ f, (s.threads t).pc = .tfRun f) ∧ th = { s.threads u with pc := .user }) →
      update (update s.threads v th) t th' u = s.threads u ∨
        (s.threads u).pc.live = false ∧
          ((update (update s.threads v th) t th' u).pc.live = false ∨
            (∃ f, (s.threads t).pc = .tfRun f) ∧
              update (update s.threads v th) t th' u =
                { s.threads u with pc := .user }) := by
    intro v th th' hdead hth
    rw [update_of_ne hne]
    rcases eq_or_ne u v with rfl | huv
    · rw [update_self]
      exact .inr ⟨hdead,hth rfl⟩
    · exact .inl (update_of_ne huv _ _)
  cases he with
  | fork hpc hthread =>
    refine hnew ?_ fun _ => .inl rfl
    rcases hthread with hx | hx <;> rw [hx] <;> rfl
  | enrol hfork hpc hth =>
    have hdead := h.made_dead hfork
    exact hnew hdead fun _ => .inl (hth ▸ hdead)
  | discard hfork | abandon hfork => exact hnew (h.made_dead hfork) fun _ => .inl rfl
  | start hpc =>
    exact hnew (h.made_dead (t := t) (k := 7) (by rw [hpc]; rfl)) fun hu =>
      .inr ⟨⟨_,hpc⟩,by rw [hu]⟩
  | claim | null =>
    rw [reapStage_life]
    exact .inl (threads_setPc_ne _ hne _)
  | _ => exact .inl (threads_setPc_ne _ hne _)

theorem Effect.other (hlive : (s.threads u).pc.live = true) : s'.threads u = s.threads u := by
  refine (he.others h hne).resolve_right fun hx => ?_
  rw [hlive] at hx
  cases hx.1

theorem Effect.unmoved (hlive : (s'.threads u).pc.live = true) (huser : (s'.threads u).pc ≠ .user) :
    s'.threads u = s.threads u := by
  rcases he.others h hne with heq | ⟨-,hdead | ⟨-,hx⟩⟩
  · exact heq
  · rw [hlive] at hdead
    cases hdead
  · exact absurd (by rw [hx]) huser

theorem Effect.zombie_kept (hz : (s.threads u).pc = .zombie) (hfork : ∀ temp, choice ≠ .fork u temp) :
    s'.threads u = s.threads u := by
  have hnew : ∀ {v : Nat} {th th' : Thread}, u ≠ v →
      update (update s.threads v th) t th' u = s.threads u := by
    intro v th th' huv
    rw [update_of_ne hne,update_of_ne huv]
  have hmade : ∀ {f : Fork} {k : Nat}, (s.threads t).pc.forking = some (f, k) → u ≠ f.thread := by
    rintro f k hf rfl
    rw [(h.made hf).thread] at hz
    cases hz
  cases he with
  | fork _ _ _ hchoice => exact hnew fun heq => hfork _ (heq ▸ hchoice)
  | enrol hf | discard hf | abandon hf => exact hnew (hmade hf)
  | start hpc => exact hnew (hmade (k := 7) (by rw [hpc]; rfl))
  | claim | null =>
    rw [reapStage_life]
    exact threads_setPc_ne _ hne _
  | _ => exact threads_setPc_ne _ hne _

end

theorem Effect.self (he : Effect s t choice s') :
    ∃ pc, s'.threads t = { s.threads t with pc := pc } ∧
      (pc.live = true ∨ pc = .zombie ∧ (s'.life (s.threads t).proc).stage = .ended) := by
  cases he with
  | turn hturn =>
    refine ⟨_,threads_setPc_self _ _ _,.inl (Pc.live_of_stand ?_)⟩
    rw [hturn.stand]
    exact Pc.stand_of_live hturn.live
  | retire hpc =>
    refine ⟨_,threads_setPc_self _ _ _,.inr ⟨rfl,?_⟩⟩
    simp [State.setPc,State.setStage,State.setLife]
  | claim | null =>
    rw [reapStage_life]
    exact ⟨_,threads_setPc_self _ _ _,.inl rfl⟩
  | write hfork hk hpc =>
    exact ⟨_,threads_setPc_self _ _ _,.inl (Pc.stand_of_forking hpc.choose_spec).2⟩
  | enrol hfork hpc =>
    refine ⟨_,(threads_setPc_self _ _ _).trans ?_,.inl (Pc.stand_of_forking hpc.choose_spec).2⟩
    dsimp only
    rw [update_of_ne (h.made_ne hfork)]
  | discard hfork | abandon hfork =>
    refine ⟨.user,(threads_setPc_self _ _ _).trans ?_,.inl rfl⟩
    have := h.made_ne hfork
    simp [State.freeThread,State.setPc,State.setStage,State.setLife,update_of_ne this]
  | start hpc =>
    refine ⟨.user,(threads_setPc_self _ _ _).trans ?_,.inl rfl⟩
    have := h.made_ne (t := t) (k := 7) (by rw [hpc]; rfl)
    simp [State.setPc,State.setStage,State.setLife,update_of_ne this]
  | fork hpc => exact ⟨_,update_self _ _ _,.inl rfl⟩
  | _ => exact ⟨_,threads_setPc_self _ _ _,.inl rfl⟩

end Facts

end OS161.Proc
