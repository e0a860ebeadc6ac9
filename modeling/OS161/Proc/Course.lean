import OS161.Proc.Change

namespace OS161.Proc

def NoReturn : Act → Prop
  | .thread _ .ret => False
  | _ => True

def Over (s : State) (n : Nat) : Prop :=
  (s.life n).stage = .ended ∨ ∃ t, (s.life n).stage = .reaping t

inductive Stage.Next (t : Nat) (pc : Pc) : Stage → Stage → Prop
  | stay {st : Stage} : Next t pc st st
  | born : Next t pc .unused (.making t)
  | lost : Next t pc (.making t) .lost
  | start {u : Nat} : Next t pc (.making t) (.alive u)
  | ended (hpc : pc = .exitRelease) : Next t pc (.alive t) .ended
  | claim {i : Int} (hpc : pc = .reapTest i) : Next t pc .ended (.reaping t)
  | gone {i : Int} (hpc : pc = .reapNull i) : Next t pc (.reaping t) .gone

structure Course (s : State) : Prop where
  tied : ∀ n u, (s.life n).stage = .alive u →
    (s.threads u).pc.live = true ∧ (s.threads u).proc = n
  closing : ∀ t, (s.threads t).pc.stand.closing = true →
    (s.life (s.threads t).proc).phase ≠ .running
  stop : ∀ i n h c, s.slot i = some (n, h) → h ≠ .freed → s.table i = some c →
    (s.life n).phase ≠ .running → (s.mem c).status = .stop
  past : ∀ n, Over s n → (s.life n).phase ≠ .running

theorem Pc.live_of_reaping {pc : Pc} {x : Int × Health} (h : pc.reaping = some x) :
    pc.live = true := by
  cases pc <;> first | rfl | cases h

section Facts
variable {s s' : State} {t : Nat} {choice : Choice}

theorem Stand.live_of_closing {pc : Pc} (h : pc.stand.closing = true) : pc.live = true :=
  Pc.live_of_stand fun heq => by rw [heq] at h; cases h

theorem Ages.phase_kept {n : Nat} (ha : Ages s s' t choice n) (hn : n ≠ s.next)
    (hph : (s.life n).phase ≠ .running) : (s'.life n).phase ≠ .running := by
  cases ha with
  | born hx => exact absurd hx hn
  | stop _ _ hlife | code _ _ hlife => rw [hlife]; exact nofun
  | same hlife | renumber _ _ hlife | call _ _ _ hlife | claim _ _ _ _ _ hlife | gone _ _ hlife
  | ended _ _ hlife | lost _ _ _ hlife | start _ _ hlife => rw [hlife]; exact hph

theorem Ages.phase_back {n : Nat} (ha : Ages s s' t choice n)
    (hph : (s'.life n).phase ≠ .running) :
    (s.life n).phase ≠ .running ∨ n = (s.threads t).proc ∧
      ((∃ code ptr, (s.threads t).pc = .exitStatus code ptr ∧ (s'.mem ptr).status = .stop) ∨
        ∃ code ptr, (s.threads t).pc = .exitCode code ptr) := by
  cases ha with
  | born _ hlife => rw [hlife] at hph; exact absurd rfl hph
  | stop hpc hn _ hstop => exact .inr ⟨hn,.inl ⟨_,_,hpc,hstop⟩⟩
  | code hpc hn => exact .inr ⟨hn,.inr ⟨_,_,hpc⟩⟩
  | same hlife | renumber _ _ hlife | call _ _ _ hlife | claim _ _ _ _ _ hlife | gone _ _ hlife
  | ended _ _ hlife | lost _ _ _ hlife | start _ _ hlife => rw [hlife] at hph; exact .inl hph

theorem Effect.closing (he : Effect s t choice s') (hret : choice ≠ .ret)
    (hc : (s'.threads t).pc.stand.closing = true) :
    (s.threads t).pc.stand.closing = true ∨ ∃ cv, (s.threads t).pc = .exitSignal cv := by
  have hfrom : ∀ {pc : Pc}, (s.threads t).pc = pc → pc.stand.closing = true →
      (s.threads t).pc.stand.closing = true := fun hpc hx => hpc ▸ hx
  cases he.strides with
  | keep hst => exact .inl (hst ▸ hc)
  | away hst => rw [hst] at hc; cases hc
  | leave hchoice => exact absurd hchoice hret
  | signal hpc => exact .inr ⟨_,hpc⟩
  | pass hpc => exact .inl (hpc.elim (hfrom · rfl) (hfrom · rfl))
  | null hpc | finish hpc => exact .inl (hfrom hpc rfl)

theorem Ages.parent {n : Nat} (ha : Ages s s' t choice n) (hn : n ≠ s.next) :
    (s'.life n).parent = (s.life n).parent := by
  cases ha with
  | born hx => exact absurd hx hn
  | same hlife | renumber _ _ hlife | call _ _ _ hlife | stop _ _ hlife | code _ _ hlife
  | claim _ _ _ _ _ hlife | gone _ _ hlife | ended _ _ hlife | lost _ _ _ hlife
  | start _ _ hlife => rw [hlife]

theorem Effect.slot_back (he : Effect s t choice s') {i : Int} {n : Nat} {hh : Health}
    (hslot : s'.slot i = some (n, hh)) :
    (∃ h₀, s.slot i = some (n, h₀)) ∨
      ∃ f j, (s.threads t).pc = .cpChild .table f j ∧ n = f.proc := by
  have hshow := he.shows i
  rw [hslot] at hshow
  generalize hx : some (n, hh) = x at hshow
  generalize s'.table i = y at hshow
  cases hshow with
  | same => exact .inl ⟨hh,hx.symm⟩
  | mark =>
    obtain ⟨⟨m,h₀⟩,hs,hm⟩ := Option.map_eq_some_iff.mp hx.symm
    cases hm
    exact .inl ⟨h₀,hs⟩
  | clear => cases hx
  | @enter f j hpc =>
    cases hx
    exact .inr ⟨f,j,hpc,rfl⟩

theorem Effect.child (he : Effect s t choice s') {st : ChildStmt} {f : Fork} {i : Int}
    (hpc : (s'.threads t).pc = .cpChild st f i) (hst : st ≠ .pid) :
    ∃ st', (s.threads t).pc = .cpChild st' f i := by
  cases he with
  | @turn lock z cs pc _ hturn =>
    rw [State.threads_setPc_self] at hpc
    have harr := hturn.arrives
    rw [show pc = .cpChild st f i from hpc] at harr
    exact harr.resolve_left hst
  | write _ _ _ _ hfollow | enrol _ _ _ hfollow =>
    exact hfollow.1 st f i ((congrArg Thread.pc (State.threads_setPc_self _ _ _)).symm.trans hpc)
  | fork => simp [startFork] at hpc
  | _ =>
    rw [State.threads_setPc_self] at hpc
    cases hpc

theorem step_cpChild {st : ChildStmt} {f : Fork} {i : Int}
    (hpc : (s.threads t).pc = .cpChild st f i) (hstep : step s (.thread t choice) = some s') :
    s' = childStmt s t f i st := by
  obtain ⟨-,hmove⟩ := threadStep_cases hstep
  rw [hpc] at hmove
  rcases hmove with ⟨hx,-⟩ | ⟨g,cv,hx,-⟩ | ⟨g,run,ok,hx,-⟩ | ⟨-,hs⟩
  · cases hx
  · cases hx
  · cases run <;> cases hx
  · exact (Option.some.inj hs).symm

theorem Tidy.claim_stage (htidy : Tidy s (.thread t choice)) {i : Int} {n c : Nat} {hh : Health}
    (hpc : (s.threads t).pc = .reapTest i) (hslot : s.slot i = some (n, hh))
    (htab : s.table i = some c) (hppid : (s.mem c).ppid = (s.threads t).pid)
    (hstop : (s.mem c).status = .stop) : (s.life n).stage = .ended := by
  simp only [Tidy,hpc] at htidy
  exact htidy c n hh htab hslot hppid hstop

variable (A : Agree s.forget)
include A

theorem Agree.live_old {u : Nat} (hl : (s.threads u).pc.live = true) : (s.threads u).proc < s.next :=
  (A.own_entry ((Pc.live_forget _).trans hl)).old

theorem Agree.next_unused : (s.life s.next).stage = .unused := (A.fresh s.next (Nat.le_refl _)).1

theorem Agree.live_allows {u : Nat} {pc : Pc} (hpc : (s.threads u).pc = pc) (hl : pc.live = true) :
    pc.allows (s.life (s.threads u).proc).phase = true := by
  rw [← hpc] at hl ⊢
  exact (Pc.allows_forget _ _).symm.trans ((A.threads u).phase ((Pc.live_forget _).trans hl))

theorem Agree.live_stage {u : Nat} (hl : (s.threads u).pc.live = true) :
    (s.life (s.threads u).proc).stage = .alive u :=
  (A.threads u).alive ((Pc.live_forget _).trans hl)

theorem Agree.null_stage {i : Int} {n : Nat} {hh : Health} (hpc : (s.threads t).pc = .reapNull i)
    (hslot : s.slot i = some (n, hh)) : (s.life n).stage = .reaping t := by
  obtain ⟨m,hm,hst,-⟩ := (A.threads t).reap i .freed ((Pc.reaping_forget _).trans (by rw [hpc]; rfl))
  have heq : m = n := (Prod.mk.inj (Option.some.inj (hm.symm.trans hslot))).1
  exact heq ▸ hst

theorem Agree.reaper {n u : Nat} (hst : (s.life n).stage = .reaping u) :
    ∃ i hh, (s.threads u).pc.reaping = some (i, hh) ∧ s.slot i = some (n, hh) := by
  obtain ⟨i,hh,hr,hs⟩ := (A.threads u).reaps n hst
  exact ⟨i,hh,(Pc.reaping_forget _).symm.trans hr,hs⟩

theorem Ages.next {n : Nat} (ha : Ages s s' t choice n) (htidy : Tidy s (.thread t choice)) :
    Stage.Next t (s.threads t).pc (s.life n).stage (s'.life n).stage := by
  cases ha with
  | same hlife | renumber _ _ hlife | call _ _ _ hlife | stop _ _ hlife | code _ _ hlife =>
    rw [hlife]
    exact .stay
  | claim hpc hslot htab hppid hstop hlife =>
    rw [hlife,htidy.claim_stage hpc hslot htab hppid hstop]
    exact .claim hpc
  | gone hpc hslot hlife =>
    rw [hlife,A.null_stage hpc hslot]
    exact .gone hpc
  | ended hpc hn hlife =>
    rw [hlife,hn,A.live_stage (by rw [hpc]; rfl)]
    exact .ended hpc
  | born hn hlife =>
    rw [hlife,hn,A.next_unused]
    exact .born
  | lost hfork hn _ hlife =>
    rw [hlife,hn,(A.made hfork).stage]
    exact .lost
  | @start f hpc hn hlife =>
    rw [hlife,hn,(A.made (t := t) (k := 7) (by rw [hpc]; rfl)).stage]
    exact .start

theorem Effect.alive_kept {n v : Nat} (he : Effect s t choice s') (htidy : Tidy s (.thread t choice))
    (hst : (s.life n).stage = .alive v) :
    (s'.life n).stage = .alive v ∨ v = t ∧ (s.threads t).pc = .exitRelease := by
  have hnext := (he.ages n).next A htidy
  rw [hst] at hnext
  generalize (s'.life n).stage = st at hnext ⊢
  cases hnext with
  | stay => exact .inl rfl
  | ended hpc => exact .inr ⟨rfl,hpc⟩

theorem Agree.old_of_stage {n : Nat} {st : Stage} (hst : (s.life n).stage = st) (hne : st ≠ .unused) :
    n < s.next := by
  by_contra hle
  exact hne (hst.symm.trans (A.fresh n (Nat.le_of_not_lt hle)).1)

theorem Effect.entered_stage (he : Effect s t choice s') {f : Fork} {j : Int}
    (hpc : (s.threads t).pc = .cpChild .table f j) : (s'.life f.proc).stage = .making t := by
  have hm := (A.made (t := t) (k := 6) (by rw [hpc]; rfl)).stage
  have hlive := A.live_stage he.live
  have hne : f.proc ≠ (s.threads t).proc := fun heq => by rw [heq,hlive] at hm; cases hm
  cases he.ages f.proc with
  | same hlife | renumber _ _ hlife => rw [hlife]; exact hm
  | call _ _ hn | stop _ hn | code _ hn | ended _ hn => exact absurd hn hne
  | claim hpc' | gone hpc' | start hpc' => cases hpc.symm.trans hpc'
  | born hn => rw [hn,A.next_unused] at hm; cases hm
  | lost hfork _ hk =>
    rw [hpc] at hfork
    cases hfork
    omega

theorem Agree.ppid_parent {i : Int} {n c v : Nat} {hh : Health} (hslot : s.slot i = some (n, hh))
    (htab : s.table i = some c) (hfr : hh ≠ .freed) (hl : (s.threads v).pc.live = true)
    (hv : (s.threads v).proc = (s.life n).parent) : (s.mem c).ppid = (s.threads v).pid := by
  obtain ⟨d,hd⟩ := A.entry i n hh hslot
  have hdc : d = c := Option.some.inj (hd.table.symm.trans htab)
  have hpid : (s.life (s.threads v).proc).pid = (s.threads v).pid :=
    (A.own_entry ((Pc.live_forget _).trans hl)).pid
  rw [← hpid,hv,← hdc]
  exact (hd.ppid hfr).trans hd.parent

theorem Agree.unfreed {i : Int} {n : Nat} {hh : Health} (hslot : s.slot i = some (n, hh))
    (hst : ∀ u, (s.life n).stage ≠ .reaping u) : hh ≠ .freed := by
  obtain ⟨d,hd⟩ := A.entry i n hh hslot
  rintro rfl
  obtain ⟨u,hu⟩ := hd.broken nofun
  exact hst u hu

theorem Agree.listed {i : Int} {n : Nat} {hh : Health} (hslot : s.slot i = some (n, hh)) :
    ∃ c, s.table i = some c := by
  obtain ⟨c,hc⟩ := A.entry i n hh hslot
  exact ⟨c,hc.table⟩

variable (h : Course s) (he : Effect s t choice s')

include h he in
theorem Course.tied_kept {n u : Nat} (hst : (s'.life n).stage = .alive u) :
    (s'.threads u).pc.live = true ∧ (s'.threads u).proc = n := by
  have hkeep : (s.life n).stage = .alive u → (s'.threads u).pc.live = true ∧ (s'.threads u).proc = n := by
    intro hold
    obtain ⟨hlive,hproc⟩ := h.tied n u hold
    rcases eq_or_ne u t with rfl | hne
    · obtain ⟨pc,hth,hpc⟩ := he.self A
      rw [hth]
      refine ⟨hpc.resolve_right fun ⟨_,hx⟩ => ?_,hproc⟩
      rw [hproc,hst] at hx
      cases hx
    · rw [he.other A hne hlive]
      exact ⟨hlive,hproc⟩
  cases he.ages n with
  | @start f hpc hn hlife hth =>
    have hf : (s.threads t).pc.forking = some (f, 7) := by rw [hpc]; rfl
    rw [hlife] at hst
    cases hst
    rw [hth (A.made_ne hf).symm]
    exact ⟨rfl,((A.made hf).ptr (by decide)).2.trans hn.symm⟩
  | claim _ _ _ _ _ hlife | gone _ _ hlife | ended _ _ hlife | lost _ _ _ hlife | born _ hlife =>
    rw [hlife] at hst
    cases hst
  | same hlife | renumber _ _ hlife | call _ _ _ hlife | stop _ _ hlife | code _ _ hlife =>
    rw [hlife] at hst
    exact hkeep hst

include h he in
theorem Course.closing_kept (hret : choice ≠ .ret) {u : Nat}
    (hu : (s'.threads u).pc.stand.closing = true) :
    (s'.life (s'.threads u).proc).phase ≠ .running := by
  have hkeep : (s.threads u).pc.live = true → (s.life (s.threads u).proc).phase ≠ .running →
      (s'.life (s.threads u).proc).phase ≠ .running := fun hl =>
    (he.ages _).phase_kept (Nat.ne_of_lt (A.live_old hl))
  rcases eq_or_ne u t with rfl | hne
  · obtain ⟨pc,hth,-⟩ := he.self A
    rw [hth]
    refine hkeep he.live ?_
    rcases he.closing hret hu with hc | ⟨cv,hpc⟩
    · exact h.closing u hc
    · have := A.live_allows hpc rfl
      simp only [Pc.allows,decide_eq_true_eq] at this
      rw [this]
      exact fun h => by cases h
  · rcases he.others A hne with heq | ⟨-,hdead | ⟨-,huser⟩⟩
    · rw [heq] at hu ⊢
      exact hkeep (Stand.live_of_closing hu) (h.closing u hu)
    · rw [Stand.live_of_closing hu] at hdead
      cases hdead
    · rw [huser] at hu
      cases hu

theorem Agree.over_old {n : Nat} (hover : Over s n) : n ≠ s.next := by
  rcases hover with hst | ⟨u,hst⟩
  · exact Nat.ne_of_lt (A.old_of_stage hst nofun)
  · exact Nat.ne_of_lt (A.old_of_stage hst nofun)

theorem Effect.over_back (he : Effect s t choice s') (htidy : Tidy s (.thread t choice)) {n : Nat}
    (hover : Over s' n) : Over s n ∨ (s.life n).stage = .alive t ∧ (s.threads t).pc = .exitRelease := by
  have hnext := (he.ages n).next A htidy
  unfold Over at hover ⊢
  generalize (s.life n).stage = st at hnext ⊢
  generalize (s'.life n).stage = st' at hnext hover
  cases hnext with
  | stay => exact .inl hover
  | claim => exact .inl (.inl rfl)
  | ended hpc => exact .inr ⟨rfl,hpc⟩
  | born | lost | start | gone => rcases hover with hx | ⟨u,hx⟩ <;> cases hx

include h he in
theorem Course.over_kept (htidy : Tidy s (.thread t choice)) {n : Nat} (hover : Over s' n) :
    (s'.life n).phase ≠ .running := by
  rcases he.over_back A htidy hover with hold | ⟨hst,hpc⟩
  · exact (he.ages n).phase_kept (A.over_old hold) (h.past n hold)
  · refine (he.ages n).phase_kept (Nat.ne_of_lt (A.old_of_stage hst nofun)) ?_
    rw [← (h.tied n t hst).2]
    exact h.closing t (by rw [hpc]; rfl)

theorem Agree.listed_ne {f : Fork} {k : Nat} (hf : (s.threads t).pc.forking = some (f, k)) (hk : k ≤ 6)
    {i : Int} {n c : Nat} {hh : Health} (hslot : s.slot i = some (n, hh)) (hh' : hh ≠ .freed)
    (htab : s.table i = some c) : c ≠ f.temp := by
  rintro rfl
  obtain ⟨d,hd⟩ := A.entry i n hh hslot
  have hdc : d = f.temp := Option.some.inj (hd.table.symm.trans htab)
  have hm := A.made hf
  have hn : n = f.proc := (hd.cell hh').2.symm.trans ((congrArg s.procOf hdc).trans hm.cell.2)
  exact hm.out hk i hh (hn ▸ hslot)

theorem Effect.listed_kept (he : Effect s t choice s') {i : Int} {n c : Nat} {hh : Health}
    (hslot : s.slot i = some (n, hh)) (hfr : hh ≠ .freed) (htab : s.table i = some c) :
    (s'.mem c).pid = (s.mem c).pid ∧ (s'.mem c).ppid = (s.mem c).ppid ∧
      (s'.mem c).arrayCv = (s.mem c).arrayCv := by
  have hstore := he.stores c
  generalize s'.mem c = p at hstore ⊢
  cases hstore with
  | write hfork hk hc => exact absurd hc (A.listed_ne hfork (by omega) hslot hfr htab)
  | _ => exact ⟨rfl,rfl,rfl⟩

theorem Agree.temp_ne {u : Nat} {f g : Fork} {k l : Nat} (hne : u ≠ t)
    (hf : (s.threads u).pc.forking = some (f, k)) (hg : (s.threads t).pc.forking = some (g, l)) :
    f.temp ≠ g.temp := by
  intro heq
  have hm := A.made hf
  have hproc : f.proc = g.proc := by rw [← hm.cell.2,heq,(A.made hg).cell.2]
  have hstage := hm.stage
  rw [hproc,(A.made hg).stage] at hstage
  exact hne (Stage.making.inj hstage).symm

theorem Agree.own_slot {i : Int} {c : Nat} {hh : Health} (hl : (s.threads t).pc.live = true)
    (hslot : s.slot i = some ((s.threads t).proc, hh)) (htab : s.table i = some c) :
    i = (s.threads t).pid ∧ c = (s.threads t).arrayPtr := by
  have hown := A.own_entry ((Pc.live_forget _).trans hl)
  obtain ⟨d,hd⟩ := A.entry i _ hh hslot
  have hi : i = (s.threads t).pid := hd.pid.symm.trans hown.pid
  refine ⟨hi,Option.some.inj (htab.symm.trans ?_)⟩
  rw [hi]
  exact hown.table

theorem Effect.entry_back (he : Effect s t choice s') {i : Int} {n c : Nat} {hh : Health}
    (hslot : s'.slot i = some (n, hh)) (hfr : hh ≠ .freed) (htab : s'.table i = some c) :
    (∃ h₀, h₀ ≠ .freed ∧ s.slot i = some (n, h₀) ∧ s.table i = some c) ∨
      ∃ f j, (s.threads t).pc = .cpChild .table f j ∧ i = (s.mem f.temp).pid ∧ n = f.proc ∧
        c = f.temp := by
  have hshow := he.shows i
  rw [hslot,htab] at hshow
  generalize hx : some (n, hh) = x at hshow
  generalize hy : some c = y at hshow
  cases hshow with
  | same => exact .inl ⟨hh,hfr,hx.symm,rfl⟩
  | mark hpc =>
    obtain ⟨⟨m,h₀⟩,hs,hm⟩ := Option.map_eq_some_iff.mp hx.symm
    cases hm
    have hreap : ∀ h₁, (s.threads t).pc.reaping = some (i, h₁) → h₁ ≠ .freed → h₀ ≠ .freed := by
      intro h₁ hr hfr
      obtain ⟨m,hm,-⟩ := (A.threads t).reap i h₁ ((Pc.reaping_forget _).trans hr)
      have heq : h₁ = h₀ := (Prod.mk.inj (Option.some.inj (hm.symm.trans hs))).2
      exact heq ▸ hfr
    refine .inl ⟨h₀,?_,hs,rfl⟩
    rcases hpc with hpc | hpc
    · exact hreap .sound (by rw [hpc]; rfl) nofun
    · exact hreap .cvGone (by rw [hpc]; rfl) nofun
  | clear => cases hx
  | @enter f j hpc hi =>
    cases hx
    cases hy
    exact .inr ⟨f,j,hpc,hi,rfl,rfl⟩

include h he in
theorem Course.stop_kept {i : Int} {n c : Nat} {hh : Health} (hslot : s'.slot i = some (n, hh))
    (hh' : hh ≠ .freed) (htab : s'.table i = some c) (hph : (s'.life n).phase ≠ .running) :
    (s'.mem c).status = .stop := by
  have hback := (he.ages n).phase_back hph
  rcases he.entry_back A hslot hh' htab with ⟨h₀,hfr,hs,ht⟩ | ⟨f,j,hpc,-,rfl,rfl⟩
  · have hold : (s.life n).phase ≠ .running → (s'.mem c).status = .stop := by
      intro hrun
      have hstop := h.stop i n h₀ c hs hfr ht hrun
      have hstore := he.stores c
      generalize s'.mem c = p at hstore
      cases hstore with
      | same | code => exact hstop
      | stop => rfl
      | write hfork hk hc => exact absurd hc (A.listed_ne hfork (by omega) hs hfr ht)
    rcases hback with hrun | ⟨rfl,⟨code,ptr,hpc,hst⟩ | ⟨code,ptr,hpc⟩⟩
    · exact hold hrun
    · have hl : (s.threads t).pc.live = true := by rw [hpc]; rfl
      have hptr := ((A.threads t).exit code ptr ((Pc.exiting_forget _).trans (by rw [hpc]; rfl))).1
      rw [(A.own_slot hl hs ht).2]
      exact hptr ▸ hst
    · have hph := A.live_allows hpc rfl
      simp only [Pc.allows,decide_eq_true_eq] at hph
      exact hold (by rw [hph]; exact fun h => by cases h)
  · have hrun := (A.made (t := t) (k := 6) (by rw [hpc]; rfl)).phase
    rcases hback with hne | ⟨-,⟨code,ptr,hx,-⟩ | ⟨code,ptr,hx⟩⟩
    · exact absurd hrun hne
    · cases hpc.symm.trans hx
    · cases hpc.symm.trans hx

include h he in
theorem Course.effect (htidy : Tidy s (.thread t choice)) (hret : choice ≠ .ret) : Course s' :=
  ⟨fun _ _ => h.tied_kept A he,fun _ => h.closing_kept A he hret,
    fun _ _ _ _ hs hfr ht => h.stop_kept A he hs hfr ht,fun _ => h.over_kept A he htidy⟩

theorem Agree.listed_alloc {i : Int} {n c : Nat} {hh : Health} (hslot : s.slot i = some (n, hh))
    (hfr : hh ≠ .freed) (htab : s.table i = some c) : s.alloc c = true ∧ s.procOf c = n := by
  obtain ⟨d,hd⟩ := A.entry i n hh hslot
  exact Option.some.inj (hd.table.symm.trans htab) ▸ hd.cell hfr

theorem Course.step {act : Act} (h : Course s) (htidy : Tidy s act) (hret : NoReturn act)
    (hstep : OS161.Proc.step s act = some s') : Course s' := by
  cases act with
  | thread t choice =>
    exact h.effect A (effect_of_step A hstep) htidy fun heq => by rw [heq] at hret; exact hret
  | scribble c p =>
    simp only [OS161.Proc.step] at hstep
    split at hstep <;> rename_i hc
    · cases hstep
    · cases hstep
      refine ⟨h.tied,h.closing,fun i n hh d hs hfr ht hph => ?_,h.past⟩
      have hne : d ≠ c := fun heq => hc (heq ▸ (A.listed_alloc hs hfr ht).1)
      exact (congrArg Process.status (Function.update_of_ne hne _ _)).trans (h.stop i n hh d hs hfr ht hph)
  | overrun => exact htidy.elim

end Facts

theorem course_boot (mem : Nat → Process) : Course (boot mem) := by
  have hpc := boot_pc mem
  have hlife : ∀ n, ((boot mem).life n).phase = .running ∧
      (n = 0 ∨ ∀ u, ((boot mem).life n).stage ≠ .alive u) ∧ ((boot mem).life n).stage ≠ .ended ∧
      ∀ u, ((boot mem).life n).stage ≠ .reaping u := by
    intro n
    rcases n with _ | _ | n
    · exact ⟨rfl,.inl rfl,(fun h => by cases h),(fun _ h => by cases h)⟩
    · exact ⟨rfl,.inr (fun _ h => by cases h),(fun h => by cases h),(fun _ h => by cases h)⟩
    · exact ⟨rfl,.inr (fun _ h => by cases h),(fun h => by cases h),(fun _ h => by cases h)⟩
  refine ⟨fun n u hst => ?_,fun t ht => ?_,fun i n hh c _ _ _ hph => absurd (hlife n).1 hph,
    fun n hover => hover.elim (absurd · (hlife n).2.2.1) fun hx =>
      hx.elim fun u hu => absurd hu ((hlife n).2.2.2 u)⟩
  · rcases (hlife n).2.1 with rfl | hx
    · cases hst
      exact ⟨rfl,rfl⟩
    · exact absurd hst (hx u)
  · rcases hpc t with hx | hx <;> rw [hx] at ht <;> cases ht

end OS161.Proc
