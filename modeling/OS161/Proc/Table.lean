import OS161.Proc.Collect

namespace OS161.Proc

open Function

def arrayTable (block : Fin 501 → Option Nat) (i : Int) : Option Nat :=
  if h : 0 ≤ i ∧ i ≤ maxpid then block ⟨i.toNat, by unfold maxpid at h; omega⟩ else none

def clearSlots (table : Int → Option Nat) : Nat → Int → Option Nat
  | 0 => table
  | i + 1 => Function.update (clearSlots table i) i none

def threadBootstrap (block : Fin 501 → Option Nat) (mem : Nat → Process) : State :=
  { boot mem with
    table := Function.update (clearSlots (arrayTable block) maxpid.toNat) minpid (some 0) }

structure TableOk (s : State) : Prop where
  slots : ∀ i, minpid ≤ i → i ≤ maxpid → s.table i = none ∨
    ∃ c, s.table i = some c ∧ s.alloc c = true ∧ (s.mem c).pid = i
  running : ∀ t, (s.threads t).pc.live = true →
    s.table (s.threads t).pid = some (s.threads t).arrayPtr
  created : ∀ t f, (s.threads t).pc = .tfStack f ∨ (s.threads t).pc = .tfRun f →
    s.table (s.threads f.thread).pid = some (s.threads f.thread).arrayPtr

def Guarded (s : State) (act : Act) : Prop :=
  NoStrayRelease s act ∧ match act with
    | .thread t _ =>
      match (s.threads t).pc with
      | .reapTest i => ∀ c n hl, s.table i = some c → s.slot i = some (n, hl) →
          (s.mem c).ppid = (s.threads t).pid → (s.mem c).status = .stop →
          s.cs t = true ∧ (s.life n).stage = .ended
      | _ => True
    | _ => True

structure Numbered (s : State) : Prop where
  entry : ∀ i n h c, s.slot i = some (n, h) → h ≠ .freed → s.table i = some c → (s.mem c).pid = i
  draft : ∀ t st f i, (s.threads t).pc = .cpChild st f i → st ≠ .pid →
    (s.mem f.temp).pid = i ∧ (st ≠ .test → i ≠ -1)
  reaper : ∀ t x, (s.threads t).pc.reaping = some x → s.cs t = true

theorem Pc.reaping_of_forking {pc : Pc} {x : Fork × Nat} (h : pc.forking = some x) :
    pc.reaping = none := by
  cases pc <;> first | rfl | cases h

theorem Pc.forking_of_child {pc : Pc} {st : ChildStmt} {f : Fork} {i : Int}
    (h : pc = .cpChild st f i) : ∃ k, pc.forking = some (f, k) := by
  rw [h]
  cases st <;> exact ⟨_,rfl⟩

section

theorem clearSlots_apply (table : Int → Option Nat) (n : Nat) (i : Int) :
    clearSlots table n i = if 0 ≤ i ∧ i < n then none else table i := by
  induction n with
  | zero => simp [clearSlots,show ¬ (0 ≤ i ∧ i < 0) by omega]
  | succ n ih =>
    rcases eq_or_ne i n with rfl | hne
    · simp [clearSlots,show (n : Int) < n + 1 by omega]
    · have hiff : (0 ≤ i ∧ i < ((n + 1 : Nat) : Int)) ↔ 0 ≤ i ∧ i < n := by omega
      rw [clearSlots,update_of_ne hne,ih]
      simp only [hiff]

theorem threadBootstrap_eq {block : Fin 501 → Option Nat} (hlast : block (Fin.last 500) = none)
    (mem : Nat → Process) : threadBootstrap block mem = boot mem := by
  have htab : clearSlots (arrayTable block) maxpid.toNat = fun _ => none := by
    funext i
    rw [clearSlots_apply]
    split
    · rfl
    · rename_i hi
      unfold arrayTable
      split
      · rename_i hin
        have hmax : i = maxpid := by
          simp only [maxpid] at hi hin ⊢
          omega
        subst hmax
        exact hlast
      · rfl
  rw [threadBootstrap,htab]
  rfl

end

section Facts
variable {s s' : State} {t : Nat} {choice : Choice}

theorem Effect.cs_other (he : Effect s t choice s') {u : Nat} (hne : u ≠ t) : s'.cs u = s.cs u := by
  cases he with
  | turn hturn => exact hturn.others u hne
  | retire => exact update_of_ne hne _ _
  | claim | null =>
    rw [reapStage_life]
    rfl
  | _ => rfl

theorem Guarded.tidy {act : Act} (hok : Guarded s act) (hex : Exclusive s) (h : Numbered s) :
    Tidy s act := by
  cases act with
  | scribble => trivial
  | overrun => exact hok.1.elim
  | thread t choice =>
    have hreap := hok.2
    simp only [Tidy]
    split
    · rename_i i hpc
      simp only [hpc] at hreap
      exact fun c n hl htab hslot hppid hstop => (hreap c n hl htab hslot hppid hstop).2
    · rename_i f i hpc
      obtain ⟨hpid,hi⟩ := h.draft t .table f i hpc (fun h => by cases h)
      rw [hpid]
      exact hex.vacant t i ⟨hi (fun h => by cases h),_,f,hpc⟩
    · trivial

variable (A : Agree s.forget)
include A

theorem Agree.slot_of_table {i : Int} {c : Nat} (htab : s.table i = some c) :
    ∃ n hh, s.slot i = some (n, hh) := by
  have hsome : s.slot i ≠ none := fun hs => by
    have hnone : s.table i = none := (A.vacant i).mpr hs
    rw [hnone] at htab
    cases htab
  obtain ⟨⟨n,hh⟩,hs⟩ := Option.ne_none_iff_exists'.mp hsome
  exact ⟨n,hh,hs⟩

theorem Numbered.entry_kept (h : Numbered s) (he : Effect s t choice s') {i : Int} {n c : Nat}
    {hh : Health} (hslot : s'.slot i = some (n, hh)) (hfr : hh ≠ .freed)
    (htab : s'.table i = some c) : (s'.mem c).pid = i := by
  rcases he.entry_back A hslot hfr htab with ⟨h₀,hfr₀,hs,ht⟩ | ⟨f,j,hpc,rfl,-,rfl⟩
  · rw [(he.listed_kept A hs hfr₀ ht).1]
    exact h.entry i n h₀ c hs hfr₀ ht
  · have hstore := he.stores f.temp
    generalize s'.mem f.temp = p at hstore ⊢
    cases hstore with
    | same | stop | code => rfl
    | write hfork hk =>
      rw [hpc] at hfork
      cases hfork
      omega

theorem Numbered.draft_kept (h : Numbered s) (hstep : OS161.Proc.step s (.thread t choice) = some s')
    {u : Nat} {st : ChildStmt} {f : Fork} {i : Int} (hpc : (s'.threads u).pc = .cpChild st f i)
    (hst : st ≠ .pid) : (s'.mem f.temp).pid = i ∧ (st ≠ .test → i ≠ -1) := by
  have he := effect_of_step A hstep
  rcases eq_or_ne u t with rfl | hne
  · obtain ⟨st',hwas⟩ := he.child hpc hst
    obtain rfl := step_cpChild hwas hstep
    have hold := h.draft u st' f i hwas
    cases st' with
    | pid =>
      rw [childStmt,State.threads_setPc_self] at hpc
      cases hpc
      exact ⟨by simp [childStmt,State.setPc,State.setLife,State.setMem],fun hx => absurd rfl hx⟩
    | test =>
      simp only [childStmt] at hpc ⊢
      split at hpc <;> rename_i hpid
      · rw [State.threads_setPc_self] at hpc
        cases hpc
      · rw [if_neg hpid]
        obtain ⟨hi,-⟩ := hold (fun h => by cases h)
        exact ⟨hi,fun _ heq => hpid (hi.trans heq)⟩
    | ppid | status | exitcode | processPtr =>
      obtain ⟨hi,hne⟩ := hold (fun h => by cases h)
      refine ⟨?_,fun _ => hne (fun h => by cases h)⟩
      simpa [childStmt,State.setPc,State.setLife,State.setMem] using hi
    | arrayPtr | threadPid =>
      obtain ⟨hi,hne⟩ := hold (fun h => by cases h)
      exact ⟨hi,fun _ => hne (fun h => by cases h)⟩
    | table =>
      rw [childStmt,State.threads_setPc_self] at hpc
      cases hpc
  · have hth := he.unmoved A hne (by rw [hpc]; rfl) (by rw [hpc]; exact fun h => by cases h)
    rw [hth] at hpc
    obtain ⟨hi,hneg⟩ := h.draft u st f i hpc hst
    obtain ⟨k,hfork⟩ := Pc.forking_of_child hpc
    refine ⟨?_,hneg⟩
    have hstore := he.stores f.temp
    generalize s'.mem f.temp = p at hstore ⊢
    cases hstore with
    | same | stop | code => exact hi
    | write hg _ hc => exact absurd hc (A.temp_ne hne hfork hg)

theorem Numbered.reaper_kept (h : Numbered s) (he : Effect s t choice s')
    (hok : Guarded s (.thread t choice)) {u : Nat} {x : Int × Health}
    (hr : (s'.threads u).pc.reaping = some x) : s'.cs u = true := by
  rcases eq_or_ne u t with rfl | hne
  · have hto : ∀ {s₁ : State} {pc : Pc}, ((s₁.setPc u pc).threads u).pc.reaping = some x →
        pc.reaping = some x := fun {s₁ pc} hx => by
      rwa [State.threads_setPc_self] at hx
    have hown : ∀ {pc : Pc} (x : Int × Health), (s.threads u).pc = pc → pc.reaping = some x →
        s.cs u = true := fun x hpc hx => h.reaper u x (hpc ▸ hx)
    cases he with
    | @turn lock z cs pc _ hturn =>
      have harr := hturn.arrives
      have hpc := hto hr
      cases pc with
      | reapPid i | reapFree i => exact harr.elim
      | reapCv i => exact harr.2.trans (hown (i, .sound) harr.1 rfl)
      | reapNull i => exact harr.2.trans (hown (i, .cvGone) harr.1 rfl)
      | _ => cases hpc
    | claim hpc htab hppid hstop =>
      have hreap := hok.2
      simp only [hpc] at hreap
      obtain ⟨n,hl,hslot⟩ := A.slot_of_table htab
      rw [reapStage_life]
      exact (hreap _ n hl htab hslot hppid hstop).1
    | spoil hpc => exact hown (_, .sound) hpc rfl
    | free hpc => exact hown (_, .cvGone) hpc rfl
    | fork => simp [startFork,Pc.reaping] at hr
    | write _ _ hpc | enrol _ hpc =>
      obtain ⟨k,hk⟩ := hpc
      exact absurd (hto hr) (by rw [Pc.reaping_of_forking hk]; exact fun h => by cases h)
    | _ => cases hto hr
  · rw [he.cs_other hne]
    have hth := he.unmoved A hne (Pc.live_of_reaping hr) fun hx => by rw [hx] at hr; cases hr
    rw [hth] at hr
    exact h.reaper u x hr

theorem Numbered.step {act : Act} (h : Numbered s) (hok : Guarded s act)
    (hstep : OS161.Proc.step s act = some s') : Numbered s' := by
  cases act with
  | thread t choice =>
    have he := effect_of_step A hstep
    exact ⟨fun _ _ _ _ => h.entry_kept A he,fun _ _ _ _ => h.draft_kept A hstep,
      fun _ _ => h.reaper_kept A he hok⟩
  | scribble c p =>
    simp only [OS161.Proc.step] at hstep
    split at hstep <;> rename_i hfree
    · cases hstep
    · cases hstep
      have hmem : ∀ d, s.alloc d = true → (s.setMem c p).mem d = s.mem d := fun d hd =>
        update_of_ne (fun heq : d = c => hfree (heq ▸ hd)) _ _
      refine ⟨fun i n hh d hslot hfr htab => ?_,fun t st f i hpc hst => ?_,h.reaper⟩
      · rw [hmem d (A.listed_alloc hslot hfr htab).1]
        exact h.entry i n hh d hslot hfr htab
      · obtain ⟨k,hfork⟩ := Pc.forking_of_child hpc
        rw [hmem f.temp (A.made hfork).cell.1]
        exact h.draft t st f i hpc hst
  | overrun => exact hok.1.elim

theorem Numbered.table_ok (h : Numbered s) (hex : Exclusive s) (hfree : s.lock.held = false) :
    TableOk s := by
  refine ⟨fun i _ _ => ?_,fun t hl => (A.threads t).table ((Pc.live_forget _).trans hl),fun t f hpc => ?_⟩
  · cases htab : s.table i with
    | none => exact .inl rfl
    | some c =>
      obtain ⟨n,hh,hslot⟩ := A.slot_of_table htab
      have hfr : hh ≠ .freed := A.unfreed hslot fun u hst => by
        obtain ⟨j,h₁,hr,-⟩ := A.reaper hst
        rw [hex.holder u (h.reaper u _ hr)] at hfree
        cases hfree
      exact .inr ⟨c,rfl,(A.listed_alloc hslot hfr htab).1,h.entry i n hh c hslot hfr htab⟩
  · have hm := A.made (t := t) (f := f) (k := 7) (by rcases hpc with hpc | hpc <;> rw [hpc] <;> rfl)
    rw [hm.tpid (by decide),(hm.ptr (by decide)).1]
    exact (hm.listed (by decide)).2

end Facts

theorem numbered_boot (mem : Nat → Process) : Numbered (boot mem) := by
  have hpc := boot_pc mem
  refine ⟨fun i n hh c hslot _ htab => ?_,fun t st f i ht => ?_,fun t x ht => ?_⟩
  · have hi : i = minpid := by
      by_contra hne
      have hnone : (boot mem).table i = none := by simp [boot,update_of_ne hne]
      rw [hnone] at htab
      cases htab
    subst hi
    cases htab
    rfl
  · rcases hpc t with hx | hx <;> rw [hx] at ht <;> cases ht
  · rcases hpc t with hx | hx <;> rw [hx] at ht <;> cases ht

theorem process_table_along {block : Fin 501 → Option Nat} {mem : Nat → Process} {acts : List Act}
    {s : State} (hlast : block (Fin.last 500) = none)
    (hok : Run.Along step Guarded (threadBootstrap block mem) acts)
    (hrun : Run.exec step (threadBootstrap block mem) acts = some s)
    (hfree : s.lock.held = false) : TableOk s := by
  rw [threadBootstrap_eq hlast] at hok hrun
  have hinv : Agree s.forget ∧ Exclusive s ∧ Numbered s := by
    refine Run.invariant (I := fun s => Agree s.forget ∧ Exclusive s ∧ Numbered s)
      (fun s act s' ⟨hA,hex,hnum⟩ hguard hstep => ?_)
      ⟨(agree_boot mem).forget,exclusive_boot mem,numbered_boot mem⟩ hok hrun
    exact ⟨hA.tidy_step (hguard.tidy hex hnum) hstep,hex.step hguard.1 hstep,
      hnum.step hA hguard hstep⟩
  exact hinv.2.2.table_ok hinv.1 hinv.2.1 hfree

def reapsEnded (s : State) : Act → Bool
  | .thread t _ =>
    match (s.threads t).pc with
    | .reapTest i => (s.slot i).all fun x => (s.table i).all fun c =>
        (s.mem c).ppid ≠ (s.threads t).pid || s.cs t && (s.life x.1).stage = .ended
    | _ => true
  | _ => true

theorem guarded_of {s : State} {act : Act}
    (h : releasesOwn s act = true ∧ reapsEnded s act = true) : Guarded s act := by
  refine ⟨noStrayRelease_of h.1,?_⟩
  cases act with
  | scribble | overrun => trivial
  | thread t choice =>
    dsimp only
    split
    · rename_i i hpc
      intro c n hl htab hslot hppid _
      simpa [reapsEnded,hpc,hslot,htab,hppid] using h.2
    · trivial

def staleBlock (last : Option Nat) (i : Fin 501) : Option Nat :=
  if i = Fin.last 500 then last else some 9

theorem process_table_grandchild_reaped :
    ∃ s, Run.exec step (threadBootstrap (staleBlock none) fun _ => bootProcess 0)
        grandchildThenChild = some s ∧
      s.lock.held = false ∧ s.table 102 = some 1 ∧ s.table 103 = none ∧ TableOk s := by
  have hlast : staleBlock none (Fin.last 500) = none := rfl
  have hview : ((Run.exec step (boot fun _ => bootProcess 0) grandchildThenChild).map
      fun s => decide (s.lock.held = false ∧ s.table 102 = some 1 ∧ s.table 103 = none)) =
      some true := by
    decide +kernel
  obtain ⟨s,hs,heq⟩ := Option.map_eq_some_iff.mp hview
  obtain ⟨hfree,hchild,hgrand⟩ := of_decide_eq_true heq
  have hchk : Run.check step (fun s act => releasesOwn s act && reapsEnded s act)
      (boot fun _ => bootProcess 0) grandchildThenChild = true := by
    decide +kernel
  have hok : Run.Along step Guarded (threadBootstrap (staleBlock none) fun _ => bootProcess 0)
      grandchildThenChild := by
    rw [threadBootstrap_eq hlast]
    refine Run.along_mono (fun s act hact => ?_) (Run.along_of_check hchk)
    exact guarded_of (Bool.and_eq_true_iff.mp hact)
  have hrun := hs
  rw [← threadBootstrap_eq hlast] at hrun
  exact ⟨s,hrun,hfree,hchild,hgrand,process_table_along hlast hok hrun hfree⟩

theorem stale_word_in_table :
    (threadBootstrap (staleBlock (some 9)) fun _ => bootProcess 0).lock.held = false ∧
      (threadBootstrap (staleBlock (some 9)) fun _ => bootProcess 0).table maxpid = some 9 ∧
      (threadBootstrap (staleBlock (some 9)) fun _ => bootProcess 0).alloc 9 = false ∧
      ¬ TableOk (threadBootstrap (staleBlock (some 9)) fun _ => bootProcess 0) := by
  have htab : (threadBootstrap (staleBlock (some 9)) fun _ => bootProcess 0).table maxpid = some 9 := by
    have hne : maxpid ≠ minpid := by decide
    simp only [threadBootstrap,update_of_ne hne,clearSlots_apply]
    rfl
  refine ⟨rfl,htab,rfl,fun hok => ?_⟩
  rcases hok.slots maxpid (by decide) (by decide) with hnone | ⟨c,hc,halloc,-⟩
  · rw [htab] at hnone
    cases hnone
  · rw [htab] at hc
    cases hc
    cases halloc

end OS161.Proc
