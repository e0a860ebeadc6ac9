import OS161.Proc.Core

namespace OS161.Proc

open Function View

def Role.refs (slot : Int → Option (Nat × Health)) : Role → Option Nat
  | .build f _ => some f.proc
  | .point w _ => some w.proc
  | .entry i _ => (slot i).map (·.1)
  | _ => none

def View.Holds (v : View) (u n : Nat) : Prop :=
  ((v.threads u).pc.live = true ∧ (v.threads u).proc = n) ∨ (v.role u).refs v.slot = some n

def Unshared (s : State) : Act → Prop
  | .thread t _ =>
    match (s.threads t).pc with
    | .reapFree i => ∀ n h, s.slot i = some (n, h) →
        (s.threads t).proc ≠ n ∧ ∀ u, u ≠ t → ¬ s.view.Holds u n
    | .scan i | .getRead i => ∀ n h, s.slot i = some (n, h) → h ≠ .freed
    | _ => True
  | .scribble _ _ => True
  | .overrun _ _ => False

def uses (s : State) (t : Nat) : Option Nat :=
  match (s.threads t).pc with
  | .exitStatus _ _ | .exitCode _ _ | .exitCv | .exitSignal _ => some (s.threads t).proc
  | .reapTest i | .reapPid i | .reapCv i | .reapFree i => (s.slot i).map (·.1)
  | .ppidNe w | .ppidEq w | .statusTest w | .stopRead w | .cvLoad w | .cvHold w _ | .cvSleep w _
  | .cvAsleep w _ | .wokenRead w | .waitDone w _ => some w.proc
  | .cpCv f | .cpChild _ f _ | .fullCv f | .fullFree f => some f.proc
  | _ => none

structure Traced where
  state : State
  freed : Nat → Bool

def kfrees (s : State) : Act → Option Nat
  | .thread t _ => (s.threads t).pc.frees.bind fun i => (s.slot i).map (·.1)
  | _ => none

def addFreed (freed : Nat → Bool) : Option Nat → Nat → Bool
  | none => freed
  | some n => Function.update freed n true

namespace Traced

def step (x : Traced) (act : Act) : Option Traced :=
  (Proc.step x.state act).map fun s => ⟨s, addFreed x.freed (kfrees x.state act)⟩

def boot (mem : Nat → Process) : Traced := ⟨Proc.boot mem, fun _ => false⟩

end Traced

structure Safe (v : View) (freed : Nat → Bool) : Prop where
  core : Core v
  old : ∀ n, freed n = true → n < v.next
  unheld : ∀ n u, freed n = true → ¬ v.Holds u n
  marked : ∀ n i h, freed n = true → v.slot i = some (n, h) → h = .freed

theorem uses_holds {s : State} {t n : Nat} (h : uses s t = some n) : s.view.Holds t n := by
  unfold uses at h
  show ((s.threads t).pc.live = true ∧ (s.threads t).proc = n) ∨
    (s.threads t).pc.role.refs s.slot = some n
  cases hpc : (s.threads t).pc with
  | cpChild st f i =>
    rw [hpc] at h
    cases st <;> exact .inr h
  | _ =>
    rw [hpc] at h
    first
      | exact .inr h
      | exact .inl ⟨rfl,Option.some.inj h⟩
      | cases h

section Holds
variable {v : View} {t u n : Nat}

theorem Role.refs_entry {slot : Int → Option (Nat × Health)} {i : Int} {b : Bool}
    (h : (Role.entry i b).refs slot = some n) : ∃ hh, slot i = some (n, hh) := by
  obtain ⟨⟨m,hh⟩,hs,rfl⟩ := Option.map_eq_some_iff.mp h
  exact ⟨hh,hs⟩

theorem View.refs_mark (v : View) (i : Int) (h : Health) (r : Role) :
    r.refs (v.mark i h).slot = r.refs v.slot := by
  cases r with
  | entry j b => exact fst_mark v i j h
  | _ => rfl

theorem View.holds_mark {i : Int} {h : Health} (hn : (v.mark i h).Holds u n) : v.Holds u n :=
  hn.imp id fun hr => (v.refs_mark i h _).symm.trans hr

theorem View.holds_clear {i : Int} (hn : (v.clear i).Holds u n) : v.Holds u n := by
  refine hn.imp id fun hr => ?_
  change (v.role u).refs (v.clear i).slot = some n at hr
  cases hrole : v.role u with
  | entry j b =>
    rw [hrole] at hr
    obtain ⟨hh,hs⟩ := Role.refs_entry hr
    exact Option.map_eq_some_iff.mpr ⟨_,slot_clear hs,rfl⟩
  | _ =>
    rw [hrole] at hr
    exact hr

theorem View.holds_register {i : Int} {c m : Nat} (hn : (v.register i c m).Holds u n) :
    n = m ∨ v.Holds u n := by
  rcases hn with hl | hr
  · exact .inr (.inl hl)
  · change (v.role u).refs (v.register i c m).slot = some n at hr
    unfold View.Holds
    cases hrole : v.role u with
    | entry j b =>
      rw [hrole] at hr
      obtain ⟨hh,hs⟩ := Role.refs_entry hr
      rcases slot_register hs with ⟨-,hm,-⟩ | ⟨-,hs⟩
      · exact .inl hm
      · exact .inr (.inr (Option.map_eq_some_iff.mpr ⟨_,hs,rfl⟩))
    | _ =>
      rw [hrole] at hr
      exact .inr (.inr hr)

theorem View.holds_setThread {w : Nat} {th : Thread} (hpc : th.pc = (v.threads w).pc)
    (hdead : (v.threads w).pc.live = false) (hn : (v.setThread w th).Holds u n) : v.Holds u n := by
  rcases hn with ⟨hl,hp⟩ | hr
  · rcases eq_or_ne u w with rfl | hne
    · rw [v.pc_setThread hpc,hdead] at hl
      cases hl
    · rw [threads_setThread_ne v th hne] at hl hp
      exact .inl ⟨hl,hp⟩
  · rw [v.role_setThread hpc] at hr
    exact .inr hr

theorem View.holds_go {pc : Pc} (hn : (v.go t pc).Holds u n) :
    (u ≠ t ∧ v.Holds u n) ∨ (u = t ∧ ((pc.live = true ∧ (v.threads t).proc = n) ∨
      pc.role.refs v.slot = some n)) := by
  unfold View.Holds at hn
  rw [proc_go] at hn
  rcases eq_or_ne u t with rfl | hne
  · rw [threads_go_self,role_go_self] at hn
    exact .inr ⟨rfl,hn⟩
  · rw [threads_go_ne v pc hne,role_go_ne v pc hne] at hn
    exact .inl ⟨hne,hn⟩

def View.Sees (v : View) (t n : Nat) : Prop :=
  ∃ i h, ((v.threads t).pc = .scan i ∨ (v.threads t).pc = .getRead i) ∧ v.slot i = some (n, h)

def View.Known (v : View) (t n : Nat) : Prop := (∃ w, v.Holds w n) ∨ v.Sees t n ∨ n = v.next

theorem View.known_go {v' : View} {pc : Pc} (hn : (v'.go t pc).Holds u n)
    (hlive : (v.threads t).pc.live = true) (hproc : (v'.threads t).proc = (v.threads t).proc)
    (hrest : ∀ w m, v'.Holds w m → v.Known t m)
    (hrefs : ∀ m, pc.role.refs v'.slot = some m → v.Known t m) : v.Known t n := by
  rcases holds_go hn with ⟨-,hn⟩ | ⟨rfl,⟨-,hp⟩ | hr⟩
  · exact hrest u n hn
  · exact .inl ⟨u,.inl ⟨hlive,hproc ▸ hp⟩⟩
  · exact hrefs n hr

theorem Core.known (h : Core v) {v' : View} (hmove : Move v t v') (hn : v'.Holds u n) :
    v.Known t n := by
  have hhold : ∀ w m, v.Holds w m → v.Known t m := fun w m hm => .inl ⟨w,hm⟩
  have hrole : ∀ {pc : Pc}, (v.threads t).pc = pc → ∀ m, pc.role.refs v.slot = some m →
      v.Known t m := fun hpc m hm => .inl ⟨t,.inr (by rw [View.role,hpc]; exact hm)⟩
  have hbuild : ∀ {f : Fork} {k : Nat}, v.role t = .build f k → v.Known t f.proc := fun ht =>
    .inl ⟨t,.inr (by rw [ht]; rfl)⟩
  have hdead : ∀ {f : Fork} {k : Nat}, v.role t = .build f k →
      (v.threads f.thread).pc.live = false := fun ht => by rw [(h.build t _ _ ht).thread]; rfl
  have hdone : ∀ {v₁ : View} {f : Fork} {k : Nat} {pc : Pc}, v₁.threads = v.threads →
      v₁.slot = v.slot → v.role t = .build f k → (pc.live = true → 3 ≤ k) → pc.role = .other →
      ((v₁.go f.thread pc).go t .user).Holds u n → v.Known t n := by
    intro v₁ f k pc hth hsl ht hk hpc hn
    refine known_go hn (live_of_build ht) ((proc_go _ _ _ _).trans (by rw [hth]))
      (fun w m hm => ?_) fun m hm => by cases hm
    rcases holds_go hm with ⟨-,hm⟩ | ⟨-,⟨hl,hp⟩ | hr⟩
    · refine hhold w m ?_
      unfold View.Holds View.role at hm ⊢
      rw [hth,hsl] at hm
      exact hm
    · rw [hth,(h.build t f k ht).ptr (hk hl)] at hp
      exact hp ▸ hbuild ht
    · rw [hpc] at hr
      cases hr
  cases hmove with
  | stay => exact hhold u n hn
  | turn hlive hfrees hr =>
    refine known_go hn hlive rfl hhold fun m hm => ?_
    rcases hr with hr | hr <;> rw [hr] at hm
    · cases hm
    · exact .inl ⟨t,.inr hm⟩
  | @look i hpc htab =>
    refine known_go hn (by rw [hpc]; rfl) rfl hhold fun m hm => ?_
    obtain ⟨hh,hs⟩ := Role.refs_entry hm
    exact .inr (.inl ⟨i,hh,.inl hpc,hs⟩)
  | @fetch pid c parent hpc htab =>
    refine known_go hn (by rw [hpc]; rfl) rfl hhold fun m hm => ?_
    obtain ⟨n',hh,hs⟩ := h.slot_of_table htab
    simp only [Pc.role,Role.refs,hs,Option.map_some,Option.getD_some,Option.some.injEq] at hm
    exact .inr (.inl ⟨pid,hh,.inr hpc,hm ▸ hs⟩)
  | accept hpc | pass hpc | @number f i hpc | @descend f i hpc =>
    exact known_go hn (by rw [hpc]; rfl) rfl hhold fun m hm => hrole hpc m hm
  | @spoil i hpc =>
    refine known_go hn (by rw [hpc]; rfl) rfl (fun w m hm => hhold w m (holds_mark hm))
      fun m hm => hrole hpc m ?_
    rw [refs_mark] at hm
    exact hm
  | @free i c hpc htab =>
    exact known_go hn (by rw [hpc]; rfl) rfl (fun w m hm => hhold w m (holds_mark hm))
      fun m hm => by cases hm
  | skip hpc => exact known_go hn (by rw [hpc]; rfl) rfl hhold fun m hm => by cases hm
  | @drop i hpc =>
    exact known_go hn (by rw [hpc]; rfl) rfl (fun w m hm => hhold w m (holds_clear hm))
      fun m hm => by cases hm
  | @fork thread temp hpc hthread =>
    rcases eq_or_ne u t with rfl | hut
    · simp only [View.Holds,View.role,View.fork,update_self,Pc.role,Role.refs,
        Option.some.injEq] at hn
      rcases hn with ⟨-,hp⟩ | hr
      · exact .inl ⟨u,.inl ⟨by rw [hpc]; rfl,hp⟩⟩
      · exact .inr (.inr hr.symm)
    · rcases eq_or_ne u thread with rfl | huth
      · simp [View.Holds,View.role,View.fork,update_of_ne hut,Pc.role,Role.refs,
          Pc.live] at hn
      · simp only [View.Holds,View.role,View.fork,update_of_ne hut,
          update_of_ne huth] at hn
        exact hhold u n hn
  | @attach f i hpc | @label f i hpc =>
    have hd := hdead (congrArg Pc.role hpc)
    have hne : t ≠ f.thread := (h.apart (by rw [hpc]; rfl) (congrArg Pc.role hpc)).symm
    refine known_go hn (by rw [hpc]; rfl) (by rw [threads_setThread_ne v _ hne])
      (fun w m hm => hhold w m (holds_setThread (by rfl) hd hm)) fun m hm => hrole hpc m hm
  | @register f i hpc =>
    have ht : v.role t = .build f 4 := congrArg Pc.role hpc
    refine known_go hn (by rw [hpc]; rfl) rfl (fun w m hm => ?_) fun m hm => hrole hpc m hm
    rcases holds_register hm with rfl | hm
    · exact hbuild ht
    · exact hhold w m hm
  | @start f hpc =>
    exact hdone rfl rfl (congrArg Pc.role hpc) (fun _ => by decide) rfl hn
  | @discard f k hr hk =>
    exact @hdone (v.kfree f.temp) f k .unborn rfl rfl hr (fun hl => by cases hl) rfl hn
  | @abandon f hr =>
    exact hdone rfl rfl hr (fun hl => by cases hl) rfl hn

end Holds

section
variable {v v' : View} {t : Nat}

theorem slot_move (hmove : Move v t v') {i : Int} {n : Nat} {hh : Health}
    (hs : v'.slot i = some (n, hh)) :
    (∃ h₀, v.slot i = some (n, h₀) ∧ (hh = h₀ ∨ hh = .freed ∨ v.Holds t n)) ∨ v.Holds t n := by
  cases hmove with
  | @spoil j hpc =>
    obtain ⟨h₀,hs₀,⟨rfl,-⟩ | ⟨-,heq⟩⟩ := v.slot_mark hs
    · refine .inr (.inr ?_)
      rw [View.role,hpc]
      exact Option.map_eq_some_iff.mpr ⟨_,hs₀,rfl⟩
    · exact .inl ⟨h₀,hs₀,.inl heq⟩
  | @free j c hpc htab =>
    obtain ⟨h₀,hs₀,⟨-,heq⟩ | ⟨-,heq⟩⟩ := (v.kfree c).slot_mark hs
    · exact .inl ⟨h₀,hs₀,.inr (.inl heq)⟩
    · exact .inl ⟨h₀,hs₀,.inl heq⟩
  | @drop j hpc => exact .inl ⟨hh,slot_clear hs,.inl rfl⟩
  | @register f j hpc =>
    rcases slot_register (c := f.temp) hs with ⟨-,rfl,-⟩ | ⟨-,hs⟩
    · exact .inr (.inr (by rw [View.role,hpc]; rfl))
    · exact .inl ⟨hh,hs,.inl rfl⟩
  | _ => exact .inl ⟨hh,hs,.inl rfl⟩

theorem next_move (hmove : Move v t v') : v.next ≤ v'.next := by
  cases hmove with
  | fork => exact Nat.le_succ _
  | _ => exact Nat.le_refl _

end

section
variable {v v' : View} {t : Nat} {freed : Nat → Bool} (h : Safe v freed)
include h

theorem Safe.unfreed {u n : Nat} (hn : v.Holds u n) : freed n = false := by
  by_contra hf
  exact h.unheld n u (Bool.not_eq_false _ ▸ hf) hn

theorem Safe.quiet (hmove : Move v t v')
    (hseen : ∀ i n hh, (v.threads t).pc = .scan i ∨ (v.threads t).pc = .getRead i →
      v.slot i = some (n, hh) → hh ≠ .freed) : Safe v' freed where
  core := h.core.move hmove
  old n hn := Nat.lt_of_lt_of_le (h.old n hn) (next_move hmove)
  unheld n u hn hu := by
    rcases h.core.known hmove hu with ⟨w,hw⟩ | ⟨i,hh,hpc,hs⟩ | rfl
    · exact h.unheld n w hn hw
    · exact hseen i n hh hpc hs (h.marked n i hh hn hs)
    · exact Nat.lt_irrefl _ (h.old v.next hn)
  marked n i hh hn hs := by
    rcases slot_move hmove hs with ⟨h₀,hs₀,rfl | rfl | hw⟩ | hw
    · exact h.marked n i hh hn hs₀
    · rfl
    · exact absurd hw (h.unheld n t hn)
    · exact absurd hw (h.unheld n t hn)

theorem Safe.kill {n : Nat} (hold : n < v.next) (hnone : ∀ u, ¬ v.Holds u n)
    (hmark : ∀ i hh, v.slot i = some (n, hh) → hh = .freed) :
    Safe v (Function.update freed n true) := by
  have hcase : ∀ m, update freed n true m = true → m = n ∨ freed m = true := by
    intro m hm
    rcases eq_or_ne m n with rfl | hne
    · exact .inl rfl
    · rw [update_of_ne hne] at hm
      exact .inr hm
  refine ⟨h.core,fun m hm => ?_,fun m u hm => ?_,fun m i hh hm hs => ?_⟩
  · rcases hcase m hm with rfl | hm
    · exact hold
    · exact h.old m hm
  · rcases hcase m hm with rfl | hm
    · exact hnone u
    · exact h.unheld m u hm
  · rcases hcase m hm with rfl | hm
    · exact hmark i hh hs
    · exact h.marked m i hh hm hs

theorem Safe.move (hmove : Move v t v')
    (hfree : ∀ i n hh, (v.threads t).pc = .reapFree i → v.slot i = some (n, hh) →
      (v.threads t).proc ≠ n ∧ ∀ u, u ≠ t → ¬ v.Holds u n)
    (hseen : ∀ i n hh, (v.threads t).pc = .scan i ∨ (v.threads t).pc = .getRead i →
      v.slot i = some (n, hh) → hh ≠ .freed) :
    Safe v' (addFreed freed ((v.threads t).pc.frees.bind fun i => (v.slot i).map (·.1))) := by
  have hquiet := h.quiet hmove hseen
  cases hmove with
  | @free i c hpc htab =>
    obtain ⟨n,hh,hs⟩ := h.core.slot_of_table htab
    obtain ⟨hself,hrest⟩ := hfree i n hh hpc hs
    have hkill : Safe (((v.kfree c).mark i .freed).go t (.reapNull i))
        (update freed n true) := by
      refine hquiet.kill (h.core.old i n hh hs) (fun u hu => ?_) fun j h' hj => ?_
      · rcases holds_go hu with ⟨hne,hu⟩ | ⟨-,⟨-,hp⟩ | hr⟩
        · exact hrest u hne (holds_mark (v := v.kfree c) hu)
        · exact hself hp
        · cases hr
      · obtain ⟨h₀,hj₀,⟨-,rfl⟩ | ⟨hne,-⟩⟩ := (v.kfree c).slot_mark hj
        · rfl
        · exact absurd (h.core.inj j i n h₀ hh hj₀ hs) hne
    simpa [hpc,Pc.frees,hs,addFreed] using hkill
  | @skip i hpc htab =>
    rw [hpc,Pc.frees,Option.bind_some,(h.core.vacant i).mp htab]
    exact hquiet
  | stay hfrees | turn hlive hfrees hrole =>
    rw [hfrees]
    exact hquiet
  | discard hrole | abandon hrole =>
    rw [Pc.frees_of_build hrole]
    exact hquiet
  | look hpc | fetch hpc | accept hpc | pass hpc | spoil hpc | drop hpc | fork hpc | number hpc
  | descend hpc | attach hpc | label hpc | register hpc | start hpc =>
    rw [hpc]
    exact hquiet

theorem Safe.scribble {c : Nat} {x : Int × Int} : Safe (v.setIds c x) freed :=
  ⟨h.core.frame,h.old,h.unheld,h.marked⟩

end

theorem safe_boot (mem : Nat → Process) : Safe (boot mem).view fun _ => false :=
  ⟨core_boot mem,nofun,nofun,nofun⟩

theorem Unshared.frees {s : State} {t : Nat} {choice : Choice} (h : Unshared s (.thread t choice))
    (i : Int) (n : Nat) (hh : Health) (hpc : (s.threads t).pc = .reapFree i)
    (hs : s.slot i = some (n, hh)) :
    (s.threads t).proc ≠ n ∧ ∀ u, u ≠ t → ¬ s.view.Holds u n := by
  simp only [Unshared,hpc] at h
  exact h n hh hs

theorem Unshared.sees {s : State} {t : Nat} {choice : Choice} (h : Unshared s (.thread t choice))
    (i : Int) (n : Nat) (hh : Health)
    (hpc : (s.threads t).pc = .scan i ∨ (s.threads t).pc = .getRead i)
    (hs : s.slot i = some (n, hh)) : hh ≠ .freed := by
  rcases hpc with hpc | hpc <;> simp only [Unshared,hpc] at h <;> exact h n hh hs

theorem Safe.step {x x' : Traced} {act : Act} (h : Safe x.state.view x.freed)
    (hok : Unshared x.state act) (hstep : x.step act = some x') :
    Safe x'.state.view x'.freed := by
  obtain ⟨s',hs,rfl⟩ := Option.map_eq_some_iff.mp hstep
  cases act with
  | thread t choice => exact h.move (move_of_step hs) hok.frees hok.sees
  | scribble c p =>
    obtain ⟨-,hv⟩ := view_of_scribble hs
    rw [hv]
    exact h.scribble
  | overrun => exact hok.elim

theorem safe_along {mem : Nat → Process} {acts : List Act} {x : Traced}
    (hok : Run.Along Traced.step (fun x => Unshared x.state) (.boot mem) acts)
    (hrun : Run.exec Traced.step (.boot mem) acts = some x) : Safe x.state.view x.freed :=
  Run.invariant (I := fun x => Safe x.state.view x.freed)
    (fun _ _ _ h hok hstep => h.step hok hstep) (safe_boot mem) hok hrun

theorem no_use_after_free_along {mem : Nat → Process} {acts : List Act} {x : Traced}
    (hok : Run.Along Traced.step (fun x => Unshared x.state) (.boot mem) acts)
    (hrun : Run.exec Traced.step (.boot mem) acts = some x) (t n : Nat)
    (huse : uses x.state t = some n) : x.freed n = false :=
  (safe_along hok hrun).unfreed (uses_holds huse)

def exitsBetween : List Act :=
  forkWhole 0 1 1 2 ++ [.thread 1 (.exit 7)] ++ runs 1 1 ++ [.thread 0 (.exit 0)] ++ runs 0 13

theorem exit_writes_freed_process :
    ∃ x x', Run.exec Traced.step (.boot fun _ => bootProcess 0) exitsBetween = some x ∧
      uses x.state 1 = some 2 ∧ x.freed 2 = true ∧ x.step (.thread 1 .run) = some x' := by
  have hview : ((Run.exec Traced.step (.boot fun _ => bootProcess 0) exitsBetween).map
      fun x => (uses x.state 1, x.freed 2, (x.step (.thread 1 .run)).isSome)) =
      some (some 2, true, true) := by
    decide +kernel
  obtain ⟨x,hx,heq⟩ := Option.map_eq_some_iff.mp hview
  simp only [Prod.mk.injEq] at heq
  obtain ⟨huse,hfreed,hstep⟩ := heq
  obtain ⟨x',hx'⟩ := Option.isSome_iff_exists.mp hstep
  exact ⟨x,x',hx,huse,hfreed,hx'⟩

def exitsInTurn : List Act :=
  forkWhole 0 1 1 2 ++ [.thread 1 (.exit 7)] ++ runs 1 410 ++ [.thread 0 (.exit 0)] ++ runs 0 13

structure Below (v : View) (bound : Nat) : Prop where
  unborn : ∀ u, bound ≤ u → (v.threads u).pc = .unborn
  thread : ∀ u f k, v.role u = .build f k → f.thread < bound

def Act.below (bound : Nat) : Act → Bool
  | .thread _ (.fork u _) => u < bound
  | .overrun _ _ => false
  | _ => true

section
variable {v : View} {bound : Nat} (h : Below v bound)
include h

theorem Below.lt {t : Nat} (hpc : (v.threads t).pc ≠ .unborn) : t < bound :=
  Nat.lt_of_not_le fun hle => hpc (h.unborn t hle)

theorem Below.go {t : Nat} {pc : Pc} (ht : t < bound)
    (hb : ∀ f k, pc.role = .build f k → f.thread < bound) : Below (v.go t pc) bound where
  unborn u hu := by
    rw [threads_go_ne v pc (Nat.ne_of_gt (Nat.lt_of_lt_of_le ht hu))]
    exact h.unborn u hu
  thread u f k hu := by
    rcases eq_or_ne u t with rfl | hne
    · rw [role_go_self] at hu
      exact hb f k hu
    · rw [role_go_ne v pc hne] at hu
      exact h.thread u f k hu

theorem Below.congr {v₁ : View} (hth : ∀ u, (v₁.threads u).pc = (v.threads u).pc) :
    Below v₁ bound :=
  ⟨fun u hu => (hth u).trans (h.unborn u hu),
    fun u f k hu => h.thread u f k ((congrArg Pc.role (hth u)).symm.trans hu)⟩

theorem Below.move {t : Nat} {v' : View} (hmove : Move v t v')
    (hfork : ∀ f, (v'.threads t).pc = .cpCv f → (v.threads t).pc = .user → f.thread < bound) :
    Below v' bound := by
  have hframe : ∀ {v₁ : View} {pc : Pc}, (∀ u, (v₁.threads u).pc = (v.threads u).pc) → t < bound →
      (∀ f k, pc.role = .build f k → v.role t = .build f k ∨ f.thread < bound) →
      Below (v₁.go t pc) bound := fun hth ht hb =>
    (h.congr hth).go ht fun f k hr => (hb f k hr).elim (h.thread t f k) id
  have hlt : ∀ {pc : Pc}, (v.threads t).pc = pc → pc.live = true → t < bound := fun hpc hl =>
    h.lt fun heq => by rw [← hpc,heq] at hl; cases hl
  have hsame : ∀ {f : Fork} {k k' : Nat}, v.role t = .build f k → ∀ g j,
      Role.build f k' = .build g j → v.role t = .build g j ∨ g.thread < bound := by
    intro f k k' ht g j hr
    cases hr
    exact .inr (h.thread t f k ht)
  have hnew : ∀ {f : Fork} {k : Nat} {pc : Pc} {v₁ : View},
      (∀ u, (v₁.threads u).pc = (v.threads u).pc) → v.role t = .build f k → pc.role = .other →
      Below ((v₁.go f.thread pc).go t .user) bound := by
    intro f k pc v₁ hth ht hpc
    refine ((h.congr hth).go (h.thread t f k ht) fun g j hr => ?_).go (hlt rfl (live_of_build ht))
      fun g j hr => by cases hr
    rw [hpc] at hr
    cases hr
  cases hmove with
  | stay => exact h
  | turn hlive hfrees hrole =>
    refine hframe (fun _ => rfl) (hlt rfl hlive) fun f k hr => ?_
    rcases hrole with hr' | hr'
    · rw [hr'] at hr
      cases hr
    · exact .inl (hr'.symm.trans hr)
  | look hpc | fetch hpc | accept hpc | pass hpc | spoil hpc | free hpc | skip hpc | drop hpc =>
    exact hframe (fun _ => rfl) (hlt hpc rfl) fun f k hr => by cases hr
  | @fork thread temp hpc hthread =>
    have hth : thread < bound := hfork ⟨temp,thread,v.next⟩ (by simp [View.fork]) hpc
    have ht := hlt hpc rfl
    refine ⟨fun u hu => ?_,fun u f k hu => ?_⟩
    · have hut : u ≠ t := by omega
      have huth : u ≠ thread := by omega
      simp only [View.fork,update_of_ne hut,update_of_ne huth]
      exact h.unborn u hu
    · rcases eq_or_ne u t with rfl | hut
      · simp only [View.role,View.fork,update_self,Pc.role,Role.build.injEq] at hu
        rw [← hu.1]
        exact hth
      · rcases eq_or_ne u thread with rfl | huth
        · simp [View.role,View.fork,update_of_ne hut,Pc.role] at hu
        · simp only [View.role,View.fork,update_of_ne hut,
            update_of_ne huth] at hu
          exact h.thread u f k hu
  | @number f i hpc | @descend f i hpc | @register f i hpc =>
    exact hframe (fun _ => rfl) (hlt hpc rfl) (hsame (congrArg Pc.role hpc))
  | @attach f i hpc | @label f i hpc =>
    exact hframe (fun u => v.pc_setThread (by rfl) u) (hlt hpc rfl) (hsame (congrArg Pc.role hpc))
  | @start f hpc => exact hnew (fun _ => rfl) (congrArg Pc.role hpc) rfl
  | discard hrole | abandon hrole => exact hnew (fun _ => rfl) hrole rfl

end

theorem Below.step {s s' : State} {act : Act} {bound : Nat} (h : Below s.view bound)
    (hact : act.below bound = true) (hstep : step s act = some s') : Below s'.view bound := by
  cases act with
  | thread t choice =>
    refine h.move (move_of_step hstep) fun f hf hpc => ?_
    have hcpCv : (s'.threads t).pc = .cpCv f := hf
    have huser : (s.threads t).pc = .user := hpc
    obtain ⟨-,hmove⟩ := threadStep_cases hstep
    rcases hmove with ⟨-,hs⟩ | ⟨g,cv,hg,-⟩ | ⟨g,run,ok,hg,-⟩ | ⟨-,hs⟩
    · cases choice with
      | fork thread temp =>
        cases temp with
        | none =>
          cases hs
          rw [huser] at hcpCv
          cases hcpCv
        | some temp =>
          obtain ⟨-,⟨⟩⟩ := Option.ite_none_right_eq_some.mp hs
          simp only [startFork,update_self,Pc.cpCv.injEq] at hcpCv
          rw [← hcpCv]
          simpa [Act.below] using hact
      | exit code =>
        cases hs
        rw [State.pc_setPc,if_pos rfl] at hcpCv
        cases hcpCv
      | waitpid pid options statusNull =>
        simp only [userCall] at hs
        split at hs
        · cases hs
          rw [huser] at hcpCv
          cases hcpCv
        · cases hs
          rw [State.pc_setPc,if_pos rfl] at hcpCv
          cases hcpCv
      | ret =>
        obtain ⟨-,⟨⟩⟩ := Option.ite_none_right_eq_some.mp hs
        rw [State.pc_setPc,if_pos rfl] at hcpCv
        cases hcpCv
      | _ => cases hs
    · rw [huser] at hg
      cases hg
    · rw [huser] at hg
      cases run <;> cases hg
    · rw [huser] at hs
      cases hs
  | scribble c p =>
    obtain ⟨-,hv⟩ := view_of_scribble hstep
    rw [hv]
    exact ⟨h.unborn,h.thread⟩
  | overrun => cases hact

instance (v : View) (u n : Nat) : Decidable (v.Holds u n) :=
  inferInstanceAs (Decidable (_ ∨ _))

def unsharedBelow (bound : Nat) (s : State) (act : Act) : Bool :=
  act.below bound && match act with
    | .thread t _ =>
      match (s.threads t).pc with
      | .reapFree i => (s.slot i).all fun x => (s.threads t).proc ≠ x.1 &&
          (List.range bound).all fun u => u = t || !decide (s.view.Holds u x.1)
      | .scan i | .getRead i => (s.slot i).all fun x => x.2 ≠ .freed
      | _ => true
    | .scribble _ _ => true
    | .overrun _ _ => false

theorem unshared_of_below {s : State} {act : Act} {bound : Nat} (h : Below s.view bound)
    (hact : unsharedBelow bound s act = true) : Unshared s act := by
  obtain ⟨-,hrest⟩ := Bool.and_eq_true_iff.mp hact
  cases act with
  | scribble c p => trivial
  | overrun => cases hrest
  | thread t choice =>
    simp only [Unshared]
    split
    · rename_i i hpc
      intro n hh hs
      simp only [hpc,hs,Option.all_some,Bool.and_eq_true,decide_eq_true_eq,List.all_eq_true,
        List.mem_range,Bool.or_eq_true,Bool.not_eq_true',decide_eq_false_iff_not] at hrest
      refine ⟨hrest.1,fun u hu hholds => ?_⟩
      rcases Nat.lt_or_ge u bound with hlt | hge
      · exact (hrest.2 u hlt).elim hu fun hno => hno hholds
      · have hpcu : (s.threads u).pc = .unborn := h.unborn u hge
        rcases hholds with ⟨hl,-⟩ | hr
        · rw [show (s.view.threads u).pc = .unborn from hpcu] at hl
          cases hl
        · rw [View.role,show (s.view.threads u).pc = .unborn from hpcu] at hr
          cases hr
    · rename_i i hpc
      intro n hh hs
      simpa [hpc,hs] using hrest
    · rename_i i hpc
      intro n hh hs
      simpa [hpc,hs] using hrest
    · trivial

theorem below_boot (mem : Nat → Process) {bound : Nat} (hbound : 0 < bound) :
    Below (boot mem).view bound := by
  have hpc : ∀ u, u ≠ 0 → ((boot mem).view.threads u).pc = .unborn := by
    intro u hne
    simp [State.view,boot,update_of_ne hne]
  refine ⟨fun u hu => hpc u (by omega),fun u f k hu => ?_⟩
  rcases eq_or_ne u 0 with rfl | hne
  · cases hu
  · rw [View.role,hpc u hne] at hu
    cases hu

theorem unshared_along {mem : Nat → Process} {acts : List Act} {bound : Nat} (hbound : 0 < bound)
    (hchk : Run.check Traced.step (fun x => unsharedBelow bound x.state) (.boot mem) acts = true) :
    Run.Along Traced.step (fun x => Unshared x.state) (.boot mem) acts := by
  refine Run.along_imp (I := fun x => Below x.state.view bound) (fun x act x' h hact hstep => ?_)
    (fun x act h hact => unshared_of_below h hact) (below_boot mem hbound)
    (Run.along_of_check hchk)
  obtain ⟨s',hs,rfl⟩ := Option.map_eq_some_iff.mp hstep
  exact h.step (Bool.and_eq_true_iff.mp hact).1 hs

theorem no_use_after_free_exits_in_turn :
    ∃ x, Run.exec Traced.step (.boot fun _ => bootProcess 0) exitsInTurn = some x ∧
      x.freed 2 = true ∧ ∀ t n, uses x.state t = some n → x.freed n = false := by
  have hview : ((Run.exec Traced.step (.boot fun _ => bootProcess 0) exitsInTurn).map
      fun x => x.freed 2) = some true := by
    decide +kernel
  obtain ⟨x,hx,hfreed⟩ := Option.map_eq_some_iff.mp hview
  have hchk : Run.check Traced.step (fun x => unsharedBelow 2 x.state)
      (.boot fun _ => bootProcess 0) exitsInTurn = true := by
    decide +kernel
  have hok := unshared_along (by decide) hchk
  exact ⟨x,hx,hfreed,fun t n huse => no_use_after_free_along hok hx t n huse⟩

end OS161.Proc
