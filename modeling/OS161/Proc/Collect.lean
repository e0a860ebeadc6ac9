import OS161.Proc.Course

namespace OS161.Proc

def Life.steady (l : Life) : Bool :=
  match l.stage with
  | .alive _ => l.exitArg.isNone
  | _ => false

def Life.leaving (l : Life) : Bool :=
  match l.stage with
  | .alive _ => l.exitArg.isSome
  | _ => false

def Living (s : State) (n : Nat) : Prop :=
  (∃ t, (s.life n).stage = .making t) ∨ ∃ t, (s.life n).stage = .alive t

def Collectable (s : State) : Prop :=
  ∀ i c, minpid ≤ i → i < maxpid → s.table i = some c →
    ∃ n h, s.slot i = some (n, h) ∧ (Living s n ∨ Over s n ∧ Living s (s.life n).parent)

def MayExit (s : State) (n : Nat) : Prop :=
  (s.life (s.life n).parent).steady = true ∧
    ∀ m, m < s.next → (s.life m).parent = n → (s.life m).leaving = false

def Calls (s : State) (t : Nat) : Choice → Prop
  | .exit _ => (s.threads t).pc = .user → MayExit s (s.threads t).proc
  | .ret => False
  | .kmalloc ok => ok = true
  | _ => True

def InTurn (s : State) : Act → Prop
  | .thread t choice => Calls s t choice ∧
    match (s.threads t).pc with
    | .reapTest i => ∀ n h, s.slot i = some (n, h) → h ≠ .freed
    | .cpChild .table f _ => s.table (s.mem f.temp).pid = none
    | _ => True
  | .scribble _ _ => True
  | .overrun _ _ => False

def Stand.passed (i : Int) : Stand → Bool
  | .scanning j => i < j
  | .finishing => true
  | _ => false

structure Collects (s : State) : Prop where
  apart : ∀ n t, (s.life n).stage = .alive t → (s.life n).parent ≠ n
  made : ∀ n t, (s.life n).stage = .making t → (s.life n).exitArg = none
  arg : ∀ n, (s.life n).phase ≠ .running → (s.life n).exitArg ≠ none
  leaving : ∀ n, (s.life n).leaving = true → (s.life (s.life n).parent).steady = true
  ended : ∀ i n h, s.slot i = some (n, h) → minpid ≤ i → i ≤ maxpid → (s.life n).stage = .ended →
    ∃ v, (s.life (s.life n).parent).stage = .alive v ∧ (s.threads v).pc.stand.passed i = false
  reaping : ∀ i n h t, s.slot i = some (n, h) → minpid ≤ i → i ≤ maxpid →
    (s.life n).stage = .reaping t → (s.life n).parent = (s.threads t).proc
  kept : ∀ i n h, s.slot i = some (n, h) → (s.life n).stage ≠ .lost

theorem Life.steady_iff {l : Life} : l.steady = true ↔ (∃ t, l.stage = .alive t) ∧ l.exitArg = none := by
  unfold Life.steady
  cases l.stage <;> simp

theorem Life.leaving_iff {l : Life} : l.leaving = true ↔ (∃ t, l.stage = .alive t) ∧ l.exitArg ≠ none := by
  unfold Life.leaving
  cases l.stage <;> simp [Option.isSome_iff_ne_none]

section Facts
variable {s s' : State} {t : Nat} {choice : Choice}

theorem Stand.closing_of_passed {st : Stand} {i : Int} (h : st.passed i = true) :
    st.closing = true := by
  cases st <;> first | rfl | cases h

theorem Effect.passed (he : Effect s t choice s') (hret : choice ≠ .ret) {i : Int} (hlo : minpid ≤ i)
    (hhi : i ≤ maxpid) (hp : (s'.threads t).pc.stand.passed i = true) :
    (s.threads t).pc.stand.passed i = true ∨ (s.threads t).pc = .reapNull i ∨
      ((s.threads t).pc = .scan i ∨ (s.threads t).pc = .reapTest i) ∧
        ∀ c, s.table i = some c →
          ¬ ((s.mem c).ppid = (s.threads t).pid ∧ (s.mem c).status = .stop) := by
  have hfrom : ∀ {pc : Pc}, (s.threads t).pc = pc → pc.stand.passed i = true →
      (s.threads t).pc.stand.passed i = true := fun hpc hx => hpc ▸ hx
  have hnext : ∀ {j : Int}, (s'.threads t).pc.stand = .scanning (j + 1) → i = j ∨ i < j := by
    intro j hx
    rw [hx] at hp
    simp only [Stand.passed,decide_eq_true_eq] at hp
    omega
  cases he.strides with
  | keep hst => exact .inl (hst ▸ hp)
  | away hst => rw [Stand.closing_of_passed hp] at hst; cases hst
  | leave hchoice => exact absurd hchoice hret
  | signal _ hst =>
    rw [hst] at hp
    simp only [Stand.passed,decide_eq_true_eq] at hp
    omega
  | pass hpc hskip hst =>
    rcases hnext hst with rfl | hlt
    · exact .inr (.inr ⟨hpc,hskip⟩)
    · exact .inl (hpc.elim (hfrom · (decide_eq_true hlt)) (hfrom · (decide_eq_true hlt)))
  | null hpc hst =>
    rcases hnext hst with rfl | hlt
    · exact .inr (.inl hpc)
    · exact .inl (hfrom hpc (decide_eq_true hlt))
  | finish hpc hi => exact .inl (hfrom hpc (decide_eq_true (by omega)))

theorem Ages.exitArg {n : Nat} (ha : Ages s s' t choice n) (hn : n ≠ s.next) :
    (s'.life n).exitArg = (s.life n).exitArg ∨ ∃ code, (s.threads t).pc = .user ∧
      choice = .exit code ∧ n = (s.threads t).proc ∧ (s'.life n).exitArg = some code := by
  cases ha with
  | born hx => exact absurd hx hn
  | call hpc hchoice hx hlife => exact .inr ⟨_,hpc,hchoice,hx,by rw [hlife]⟩
  | same hlife | renumber _ _ hlife | stop _ _ hlife | code _ _ hlife | claim _ _ _ _ _ hlife
  | gone _ _ hlife | ended _ _ hlife | lost _ _ _ hlife | start _ _ hlife => rw [hlife]; exact .inl rfl

variable (A : Agree s.forget)
include A

theorem Collects.steady_kept (h : Collects s) (hc : Course s) (he : Effect s t choice s')
    (htidy : Tidy s (.thread t choice)) {n : Nat} (hs : (s.life n).steady = true) :
    (s'.life n).steady = true ∨
      ∃ code, (s.threads t).pc = .user ∧ choice = .exit code ∧ n = (s.threads t).proc := by
  obtain ⟨⟨v,hv⟩,harg⟩ := Life.steady_iff.mp hs
  have hn : n ≠ s.next := Nat.ne_of_lt (A.old_of_stage hv nofun)
  rcases (he.ages n).exitArg hn with harg' | ⟨code,hpc,hchoice,hproc,-⟩
  · left
    refine Life.steady_iff.mpr ⟨?_,harg'.trans harg⟩
    rcases he.alive_kept A htidy hv with hv' | ⟨rfl,hpc⟩
    · exact ⟨v,hv'⟩
    · have hproc := (hc.tied n v hv).2
      refine absurd harg (h.arg n ?_)
      rw [← hproc]
      exact hc.closing v (by rw [hpc]; rfl)
  · exact .inr ⟨code,hpc,hchoice,hproc⟩

theorem Collects.arg_kept (h : Collects s) (he : Effect s t choice s') {n : Nat}
    (hph : (s'.life n).phase ≠ .running) : (s'.life n).exitArg ≠ none := by
  have hback := (he.ages n).phase_back hph
  have hn : n ≠ s.next := by
    rintro rfl
    rcases hback with hx | ⟨hx,-⟩
    · exact hx (A.fresh s.next (Nat.le_refl _)).2
    · exact Nat.ne_of_gt (A.live_old he.live) hx
  rcases (he.ages n).exitArg hn with harg | ⟨code,-,-,-,harg⟩
  · rw [harg]
    rcases hback with hx | ⟨rfl,⟨code,ptr,hpc,-⟩ | ⟨code,ptr,hpc⟩⟩
    · exact h.arg n hx
    all_goals
      have := ((A.threads t).exit code ptr ((Pc.exiting_forget _).trans (by rw [hpc]; rfl))).2
      exact fun hx => by cases this.symm.trans hx
  · rw [harg]
    exact nofun

theorem Collects.made_kept (h : Collects s) (he : Effect s t choice s') {n u : Nat}
    (hst : (s'.life n).stage = .making u) : (s'.life n).exitArg = none := by
  cases he.ages n with
  | born _ hlife => rw [hlife]
  | same hlife | renumber _ _ hlife | stop _ _ hlife | code _ _ hlife =>
    rw [hlife] at hst ⊢
    exact h.made n u hst
  | call _ _ hn hlife =>
    rw [hlife,hn] at hst
    cases (A.live_stage he.live).symm.trans hst
  | claim _ _ _ _ _ hlife | gone _ _ hlife | ended _ _ hlife | lost _ _ _ hlife | start _ _ hlife =>
    rw [hlife] at hst
    cases hst

theorem Collects.apart_kept (h : Collects s) (he : Effect s t choice s') {n u : Nat}
    (hst : (s'.life n).stage = .alive u) : (s'.life n).parent ≠ n := by
  cases he.ages n with
  | same hlife | renumber _ _ hlife | call _ _ _ hlife | stop _ _ hlife | code _ _ hlife =>
    rw [hlife] at hst ⊢
    exact h.apart n u hst
  | @start f hpc hn hlife =>
    have hm := A.made (t := t) (k := 7) (by rw [hpc]; rfl)
    rw [hlife]
    intro heq
    have hal := A.live_stage he.live
    rw [← hm.parent,← hn,show (s.life n).parent = n from heq,hn,hm.stage] at hal
    cases hal
  | claim _ _ _ _ _ hlife | gone _ _ hlife | ended _ _ hlife | lost _ _ _ hlife | born _ hlife =>
    rw [hlife] at hst
    cases hst

section
variable (h : Collects s) (hc : Course s) (he : Effect s t choice s')
  (htidy : Tidy s (.thread t choice))
include h hc he htidy

theorem Collects.leaving_kept
    (hexit : ∀ code, choice = .exit code → (s.threads t).pc = .user → MayExit s (s.threads t).proc)
    {n : Nat} (hl : (s'.life n).leaving = true) : (s'.life (s'.life n).parent).steady = true := by
  obtain ⟨⟨u,hu⟩,harg⟩ := Life.leaving_iff.mp hl
  have hkeep : (s.life n).leaving = true → (s'.life (s.life n).parent).steady = true := by
    intro hold
    obtain ⟨⟨w,hw⟩,-⟩ := Life.leaving_iff.mp hold
    refine (h.steady_kept A hc he htidy (h.leaving n hold)).resolve_right ?_
    rintro ⟨code,hpc,hchoice,hproc⟩
    have := (hexit code hchoice hpc).2 n (A.old_of_stage hw nofun) hproc
    rw [hold] at this
    cases this
  cases he.ages n with
  | same hlife | renumber _ _ hlife | stop _ _ hlife | code _ _ hlife =>
    rw [hlife] at hu harg ⊢
    exact hkeep (Life.leaving_iff.mpr ⟨⟨u,hu⟩,harg⟩)
  | call hpc hchoice hn hlife =>
    rw [hlife] at hu ⊢
    have hne : (s.life n).parent ≠ n := h.apart n u hu
    have hsteady := (hexit _ hchoice hpc).1
    rw [← hn] at hsteady
    refine (h.steady_kept A hc he htidy hsteady).resolve_right ?_
    rintro ⟨code,-,-,hproc⟩
    exact hne (hproc.trans hn.symm)
  | @start f hpc hn hlife =>
    rw [hlife] at harg
    have hm := A.made (t := t) (k := 7) (by rw [hpc]; rfl)
    exact absurd (h.made n t (hn ▸ hm.stage)) harg
  | claim _ _ _ _ _ hlife | gone _ _ hlife | ended _ _ hlife | lost _ _ _ hlife | born _ hlife =>
    rw [hlife] at hu
    cases hu

theorem Collects.ended_kept (hret : choice ≠ .ret) {i : Int} {n : Nat} {hh : Health}
    (hslot : s'.slot i = some (n, hh)) (hlo : minpid ≤ i) (hhi : i ≤ maxpid)
    (hst : (s'.life n).stage = .ended) :
    ∃ v, (s'.life (s'.life n).parent).stage = .alive v ∧
      (s'.threads v).pc.stand.passed i = false := by
  rcases he.slot_back hslot with ⟨h₀,hs⟩ | ⟨f,j,hpc,rfl⟩
  swap
  · cases (he.entered_stage A hpc).symm.trans hst
  obtain ⟨c,htab⟩ := A.listed hs
  obtain ⟨d,hd⟩ := A.entry i n h₀ hs
  have hn : n ≠ s.next := Nat.ne_of_lt hd.old
  rw [(he.ages n).parent hn]
  have hnext := (he.ages n).next A htidy
  rw [hst] at hnext
  generalize hold : (s.life n).stage = st at hnext
  cases hnext with
  | stay =>
    obtain ⟨v,hv,hpass⟩ := h.ended i n h₀ hs hlo hhi hold
    obtain ⟨hlive,hproc⟩ := hc.tied _ v hv
    have hfr : h₀ ≠ .freed := A.unfreed hs fun u hu => by cases hold.symm.trans hu
    refine ⟨v,(he.alive_kept A htidy hv).resolve_right ?_,?_⟩
    · rintro ⟨rfl,hpc⟩
      rw [hpc] at hpass
      cases hpass
    · by_contra hp
      rw [Bool.not_eq_false] at hp
      rcases eq_or_ne v t with rfl | hne
      · rcases he.passed hret hlo hhi hp with hx | hpc | ⟨-,hskip⟩
        · rw [hpass] at hx
          cases hx
        · cases (A.null_stage hpc hs).symm.trans hold
        · exact hskip c htab ⟨A.ppid_parent hs htab hfr hlive hproc,
            hc.stop i n h₀ c hs hfr htab (hc.past n (.inl hold))⟩
      · rw [he.other A hne hlive,hpass] at hp
        cases hp
  | ended hpc =>
    have hproc := (hc.tied n t hold).2
    have harg := h.arg n (hproc ▸ hc.closing t (by rw [hpc]; rfl))
    have hsteady := h.leaving n (Life.leaving_iff.mpr ⟨⟨t,hold⟩,harg⟩)
    obtain ⟨⟨v,hv⟩,hnone⟩ := Life.steady_iff.mp hsteady
    obtain ⟨hlive,hvproc⟩ := hc.tied _ v hv
    have hne : v ≠ t := by
      rintro rfl
      exact h.apart n v hold (hvproc.symm.trans hproc)
    refine ⟨v,(he.alive_kept A htidy hv).resolve_right fun hx => hne hx.1,?_⟩
    rw [he.other A hne hlive]
    by_contra hp
    rw [Bool.not_eq_false] at hp
    exact h.arg _ (hvproc ▸ hc.closing v (Stand.closing_of_passed hp)) hnone

theorem Collects.reaping_kept {i : Int} {n u : Nat} {hh : Health} (hslot : s'.slot i = some (n, hh))
    (hlo : minpid ≤ i) (hhi : i ≤ maxpid) (hst : (s'.life n).stage = .reaping u) :
    (s'.life n).parent = (s'.threads u).proc := by
  rcases he.slot_back hslot with ⟨h₀,hs⟩ | ⟨f,j,hpc,rfl⟩
  swap
  · cases (he.entered_stage A hpc).symm.trans hst
  obtain ⟨d,hd⟩ := A.entry i n h₀ hs
  rw [(he.ages n).parent (Nat.ne_of_lt hd.old)]
  have hproc : ∀ v, (s.threads v).pc.live = true → (s'.threads v).proc = (s.threads v).proc := by
    intro v hv
    rcases eq_or_ne v t with rfl | hne
    · obtain ⟨pc,hth,-⟩ := he.self A
      rw [hth]
    · rw [he.other A hne hv]
  have hstay : (s.life n).stage = .reaping u → (s.life n).parent = (s'.threads u).proc := by
    intro hold
    rw [h.reaping i n h₀ u hs hlo hhi hold,hproc u]
    obtain ⟨j,h₁,hr,-⟩ := A.reaper hold
    exact Pc.live_of_reaping hr
  cases he.ages n with
  | @claim j c h₁ hpc hs' htab hppid hstop hlife =>
    rw [hlife] at hst
    cases hst
    have hend := htidy.claim_stage hpc hs' htab hppid hstop
    obtain ⟨v,hv,-⟩ := h.ended i n h₀ hs hlo hhi hend
    obtain ⟨hlive,hvproc⟩ := hc.tied _ v hv
    have hfr : h₁ ≠ .freed := A.unfreed hs' fun u hu => by cases hend.symm.trans hu
    have hpid := (A.ppid_parent hs' htab hfr hlive hvproc).symm.trans hppid
    have hvt := A.pid_inj ((Pc.live_forget _).trans hlive) ((Pc.live_forget _).trans he.live) hpid
    rw [hproc t he.live,← hvt,hvproc]
  | same hlife | renumber _ _ hlife | call _ _ _ hlife | stop _ _ hlife | code _ _ hlife =>
    rw [hlife] at hst
    exact hstay hst
  | gone _ _ hlife | ended _ _ hlife | lost _ _ _ hlife | born _ hlife | start _ _ hlife =>
    rw [hlife] at hst
    cases hst

end

theorem Collects.kept_kept (h : Collects s) (he : Effect s t choice s') (hmem : choice ≠ .kmalloc false)
    {i : Int} {n : Nat} {hh : Health} (hslot : s'.slot i = some (n, hh)) :
    (s'.life n).stage ≠ .lost := by
  intro hst
  rcases he.slot_back hslot with ⟨h₀,hs⟩ | ⟨f,j,hpc,rfl⟩
  swap
  · cases (he.entered_stage A hpc).symm.trans hst
  cases he.ages n with
  | @lost f k hfork hn hk =>
    rcases hk with hk | ⟨-,hx⟩
    · exact (A.made hfork).out (by omega) i h₀ (hn ▸ hs)
    · exact hmem hx
  | same hlife | renumber _ _ hlife | call _ _ _ hlife | stop _ _ hlife | code _ _ hlife =>
    rw [hlife] at hst
    exact h.kept i n h₀ hs hst
  | claim _ _ _ _ _ hlife | gone _ _ hlife | ended _ _ hlife | born _ hlife | start _ _ hlife =>
    rw [hlife] at hst
    cases hst

theorem Agree.making_runs {i : Int} {n c u : Nat} {hh : Health} (hslot : s.slot i = some (n, hh))
    (htab : s.table i = some c) (hst : (s.life n).stage = .making u) : (s.mem c).status = .running := by
  obtain ⟨f,k,hf,hfn⟩ := (A.threads u).makes n hst
  have hm := A.made ((Pc.forking_forget _).symm.trans hf)
  have hk : 7 ≤ k := by
    by_contra hk
    exact hm.out (by omega) i hh (hfn ▸ hslot)
  obtain ⟨d,hd⟩ := A.entry i n hh hslot
  have htemp := (hm.listed hk).2
  rw [hfn,show (s.life n).pid = i from hd.pid,htab] at htemp
  rw [Option.some.inj htemp]
  exact hm.status (by omega)

theorem Collects.claim_ended (h : Collects s) (hc : Course s) {i : Int} {n c : Nat} {hh : Health}
    (hpc : (s.threads t).pc = .reapTest i) (hslot : s.slot i = some (n, hh))
    (htab : s.table i = some c) (hfr : hh ≠ .freed) (hppid : (s.mem c).ppid = (s.threads t).pid)
    (hstop : (s.mem c).status = .stop) : (s.life n).stage = .ended := by
  have hlive : (s.threads t).pc.live = true := by rw [hpc]; rfl
  obtain ⟨d,hd⟩ := A.entry i n hh hslot
  have hdc : d = c := Option.some.inj (hd.table.symm.trans htab)
  have hsame : ∀ v, (s.threads v).pc.live = true → (s.threads v).pid = (s.threads t).pid → v = t :=
    fun v hv => A.pid_inj ((Pc.live_forget _).trans hv) ((Pc.live_forget _).trans hlive)
  cases hst : (s.life n).stage with
  | unused => exact absurd hst hd.present.1
  | gone => exact absurd hst hd.present.2
  | ended => rfl
  | lost => exact absurd hst (h.kept i n hh hslot)
  | making u => cases (A.making_runs hslot htab hst).symm.trans hstop
  | reaping u =>
    obtain ⟨j,h₁,hr,hs⟩ := A.reaper hst
    obtain ⟨m,hm,-,hpp⟩ := (A.threads u).reap j h₁ ((Pc.reaping_forget _).trans hr)
    have hmn : m = n := (Prod.mk.inj (Option.some.inj (hm.symm.trans hs))).1
    have hpid : (s.threads u).pid = (s.threads t).pid := by
      rw [← hppid,← hdc]
      exact (hmn ▸ hpp).symm.trans (hd.ppid hfr).symm
    rw [hsame u (Pc.live_of_reaping hr) hpid,hpc] at hr
    cases hr
  | alive u =>
    have hph : (s.life n).phase ≠ .running := hd.stop hfr (hdc ▸ hstop)
    have hsteady := h.leaving n (Life.leaving_iff.mpr ⟨⟨u,hst⟩,h.arg n hph⟩)
    obtain ⟨⟨v,hv⟩,hnone⟩ := Life.steady_iff.mp hsteady
    obtain ⟨hvl,hvproc⟩ := hc.tied _ v hv
    have hvt := hsame v hvl ((A.ppid_parent hslot htab hfr hvl hvproc).symm.trans hppid)
    refine absurd hnone (h.arg _ ?_)
    rw [← hvproc,hvt]
    exact hc.closing t (by rw [hpc]; rfl)

theorem Collects.tidy (h : Collects s) (hc : Course s) {act : Act} (hok : InTurn s act) :
    Tidy s act := by
  cases act with
  | scribble c p => trivial
  | overrun => exact hok.elim
  | thread t choice =>
    obtain ⟨-,hok⟩ := hok
    simp only [Tidy]
    split <;> rename_i hpc <;> simp only [hpc] at hok
    · intro c n hh htab hslot hppid hstop
      exact h.claim_ended A hc hpc hslot htab (hok n hh hslot) hppid hstop
    · exact hok
    · trivial

theorem Collects.step (h : Collects s) (hc : Course s) {act : Act} (hok : InTurn s act)
    (hstep : OS161.Proc.step s act = some s') : Collects s' := by
  have htidy := h.tidy A hc hok
  cases act with
  | thread t choice =>
    have he := effect_of_step A hstep
    obtain ⟨hcalls,-⟩ := hok
    have hret : choice ≠ .ret := fun heq => by rw [heq] at hcalls; exact hcalls
    have hmem : choice ≠ .kmalloc false := fun heq => by rw [heq] at hcalls; cases hcalls
    exact ⟨fun _ _ => h.apart_kept A he,fun _ _ => h.made_kept A he,fun _ => h.arg_kept A he,
      fun _ => h.leaving_kept A hc he htidy fun code heq => by rw [heq] at hcalls; exact hcalls,
      fun _ _ _ hs => h.ended_kept A hc he htidy hret hs,
      fun _ _ _ _ hs => h.reaping_kept A hc he htidy hs,fun _ _ _ hs => h.kept_kept A he hmem hs⟩
  | scribble c p =>
    obtain ⟨-,⟨⟩⟩ := Option.ite_none_left_eq_some.mp hstep
    exact ⟨h.apart,h.made,h.arg,h.leaving,h.ended,h.reaping,h.kept⟩
  | overrun => exact hok.elim

theorem Collects.collectable (h : Collects s) : Collectable s := by
  intro i c hlo hhi htab
  cases hslot : s.slot i with
  | none => cases htab.symm.trans ((A.vacant i).mpr hslot)
  | some x =>
    obtain ⟨n,hh⟩ := x
    refine ⟨n,hh,rfl,?_⟩
    obtain ⟨d,hd⟩ := A.entry i n hh hslot
    cases hst : (s.life n).stage with
    | unused => exact absurd hst hd.present.1
    | gone => exact absurd hst hd.present.2
    | lost => exact absurd hst (h.kept i n hh hslot)
    | making u => exact .inl (.inl ⟨u,hst⟩)
    | alive u => exact .inl (.inr ⟨u,hst⟩)
    | ended =>
      obtain ⟨v,hv,-⟩ := h.ended i n hh hslot hlo (by omega) hst
      exact .inr ⟨.inl hst,.inr ⟨v,hv⟩⟩
    | reaping u =>
      obtain ⟨j,h₁,hr,-⟩ := A.reaper hst
      refine .inr ⟨.inr ⟨u,hst⟩,.inr ⟨u,?_⟩⟩
      rw [h.reaping i n hh u hslot hlo (by omega) hst]
      exact A.live_stage (Pc.live_of_reaping hr)

end Facts

theorem collects_boot (mem : Nat → Process) : Collects (boot mem) := by
  have hlife : ∀ n, n ≠ 0 → ((boot mem).life n).stage = .gone ∨ ((boot mem).life n).stage = .unused := by
    intro n hn
    match n with
    | 0 => exact absurd rfl hn
    | 1 => exact .inl rfl
    | n + 2 => exact .inr rfl
  have hstage : ∀ n st, ((boot mem).life n).stage = st → st ≠ .gone → st ≠ .unused → n = 0 := by
    intro n st hst hgone hunused
    by_contra hn
    rcases hlife n hn with hx | hx
    · exact hgone (hst.symm.trans hx)
    · exact hunused (hst.symm.trans hx)
  have hslot : ∀ i n hh, (boot mem).slot i = some (n, hh) → n = 0 := by
    intro i n hh hi
    obtain ⟨c,hc⟩ := (agree_boot mem).entry i n hh hi
    by_contra hn
    rcases hlife n hn with hx | hx
    · exact hc.present.2 hx
    · exact hc.present.1 hx
  refine ⟨fun n t hst => ?_,fun n t hst => ?_,fun n hph => ?_,fun n hl => ?_,
    fun i n hh hs _ _ hst => ?_,fun i n hh t hs _ _ hst => ?_,fun i n hh hs hst => ?_⟩
  · obtain rfl := hstage n _ hst nofun nofun
    exact nofun
  · obtain rfl := hstage n _ hst nofun nofun
    cases hst
  · match n with
    | 0 => exact absurd rfl hph
    | 1 => exact absurd rfl hph
    | n + 2 => exact absurd rfl hph
  · obtain ⟨⟨t,hst⟩,harg⟩ := Life.leaving_iff.mp hl
    obtain rfl := hstage n _ hst nofun nofun
    exact absurd rfl harg
  all_goals
    obtain rfl := hslot i n hh hs
    cases hst

theorem entries_collectable_along {mem : Nat → Process} {acts : List Act} {s : State}
    (hok : Run.Along step InTurn (boot mem) acts)
    (hrun : Run.exec step (boot mem) acts = some s) : Collectable s := by
  have hinv : Agree s.forget ∧ Course s ∧ Collects s := by
    refine Run.invariant (I := fun s => Agree s.forget ∧ Course s ∧ Collects s)
      (fun s act s' ⟨hA,hcourse,hcollects⟩ hturn hstep => ?_)
      ⟨(agree_boot mem).forget,course_boot mem,collects_boot mem⟩ hok hrun
    have hret : NoReturn act := by
      cases act with
      | scribble => trivial
      | overrun => exact hturn.elim
      | thread t choice => cases choice <;> first | trivial | exact hturn.1
    have htidy := hcollects.tidy hA hcourse hturn
    exact ⟨hA.tidy_step htidy hstep,hcourse.step hA htidy hret hstep,
      hcollects.step hA hcourse hturn hstep⟩
  exact hinv.2.2.collectable hinv.1

instance (s : State) (n : Nat) : Decidable (MayExit s n) :=
  inferInstanceAs (Decidable (_ ∧ ∀ m, m < s.next → _ → _))

def inTurn (s : State) : Act → Bool
  | .thread t choice =>
    (match choice with
      | .exit _ => decide (MayExit s (s.threads t).proc)
      | .ret | .kmalloc false => false
      | _ => true) &&
    match (s.threads t).pc with
    | .reapTest i => (s.slot i).all fun x => x.2 ≠ .freed
    | .cpChild .table f _ => decide (s.table (s.mem f.temp).pid = none)
    | _ => true
  | .scribble _ _ => true
  | .overrun _ _ => false

theorem inTurn_of {s : State} {act : Act} (h : inTurn s act = true) : InTurn s act := by
  cases act with
  | scribble => trivial
  | overrun => cases h
  | thread t choice =>
    obtain ⟨hcall,hpc⟩ := Bool.and_eq_true_iff.mp h
    refine ⟨?_,?_⟩
    · cases choice with
      | exit code => exact fun _ => of_decide_eq_true hcall
      | ret => cases hcall
      | kmalloc ok => cases ok <;> first | rfl | cases hcall
      | _ => trivial
    · split <;> rename_i hx <;> simp only [hx] at hpc
      · intro n hh hslot
        simpa [hslot] using hpc
      · exact of_decide_eq_true hpc
      · trivial

def grandchildThenChild : List Act :=
  forkWhole 0 1 1 2 ++ forkWhole 1 2 2 3 ++ [.thread 2 (.exit 7)] ++ runs 2 411 ++
    [.thread 1 (.exit 0)] ++ runs 1 415

theorem entries_collectable_grandchild_first :
    ∃ s, Run.exec step (boot fun _ => bootProcess 0) grandchildThenChild = some s ∧
      s.table 103 = none ∧ (s.life 3).stage = .gone ∧ (s.life 2).stage = .ended ∧ Collectable s := by
  have hview : ((Run.exec step (boot fun _ => bootProcess 0) grandchildThenChild).map
      fun s => (s.table 103, (s.life 3).stage, (s.life 2).stage)) = some (none, .gone, .ended) := by
    decide +kernel
  obtain ⟨s,hs,heq⟩ := Option.map_eq_some_iff.mp hview
  simp only [Prod.mk.injEq] at heq
  obtain ⟨htab,hgone,hended⟩ := heq
  have hchk : Run.check step inTurn (boot fun _ => bootProcess 0) grandchildThenChild = true := by
    decide +kernel
  have hok := Run.along_mono (fun _ _ => inTurn_of) (Run.along_of_check hchk)
  exact ⟨s,hs,htab,hgone,hended,entries_collectable_along hok hs⟩

def orphanExits : List Act :=
  forkWhole 0 1 1 2 ++ forkWhole 1 2 2 3 ++ [.thread 1 (.exit 0)] ++ runs 1 411 ++
    [.thread 2 (.exit 7)] ++ runs 2 411

theorem orphan_entry_uncollectable :
    ∃ s, Run.exec step (boot fun _ => bootProcess 0) orphanExits = some s ∧
      s.slot 103 = some (3, .sound) ∧ (s.life 3).stage = .ended ∧ (s.life 3).parent = 2 ∧
      (s.life 2).stage = .ended ∧ ¬ Collectable s := by
  have hview : ((Run.exec step (boot fun _ => bootProcess 0) orphanExits).map
      fun s => (s.table 103, s.slot 103, (s.life 3).stage, (s.life 3).parent, (s.life 2).stage)) =
      some (some 2, some (3, .sound), .ended, 2, .ended) := by
    decide +kernel
  obtain ⟨s,hs,heq⟩ := Option.map_eq_some_iff.mp hview
  simp only [Prod.mk.injEq] at heq
  obtain ⟨htab,hslot,hend,hpar,hdead⟩ := heq
  refine ⟨s,hs,hslot,hend,hpar,hdead,fun hcol => ?_⟩
  obtain ⟨n,hh,hn,hlive⟩ := hcol 103 2 (by decide) (by decide) htab
  cases hslot.symm.trans hn
  rcases hlive with (⟨u,hu⟩ | ⟨u,hu⟩) | ⟨-,⟨u,hu⟩ | ⟨u,hu⟩⟩
  · cases hend.symm.trans hu
  · cases hend.symm.trans hu
  · rw [hpar,hdead] at hu
    cases hu
  · rw [hpar,hdead] at hu
    cases hu

end OS161.Proc
