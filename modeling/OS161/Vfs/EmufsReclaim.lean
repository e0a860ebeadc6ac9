import OS161.Vfs.Emufs

namespace OS161.Vfs.Emufs

open Function

def State.Saturated (s : State) : Prop := ∃ ev v, s.node ev = some v ∧ intMax ≤ v.refcount

def Pc.Due (s : State) (t : Nat) : Pc → Prop
  | .loadIncref ev => ev ∈ s.vnodes
  | .decref ev => (t, ev) ∈ s.held
  | .reclaimClose ev | .reclaimRemove ev => s.refs ev = 0 ∧ s.leaked ev = 0
  | .reclaimKill _ => False
  | _ => True

def Pc.killing : Pc → Bool
  | .reclaimKill _ => true
  | _ => false

namespace Inv
open State
variable {s s' : State} {t ev handle : Nat} {v : Vnode} {pc : Pc}

theorem pass {pc₀ : Pc} {lock : Option Nat} (h : Inv s) (hpc : s.pc t = pc₀)
    (hold : pc₀.killing = false) (hrec : pc.reclaiming = pc₀.reclaiming)
    (hothers : ∀ u, u ≠ t → (lock = some u ↔ s.elock = some u))
    (hlock : pc.locked = true ↔ lock = some t) (hdue : pc.Due s t) :
    Inv ({ s with elock := lock }.goto t pc) := by
  subst hpc
  refine h.move lock (fun ev hev => ?_) hothers ⟨fun ev => ?_,hlock,fun ev hev => ?_,
    fun ev hev => ?_,fun ev hev => ?_,fun ev hev => ?_⟩
  · rw [hev] at hold
    cases hold
  · rw [hrec]
    exact (h.threads t).claims ev
  · subst hev
    exact hdue
  · cases pc <;> cases hev <;> first | exact hdue | exact hdue.elim
  · subst hev
    exact hdue.elim
  · subst hev
    exact hdue

theorem withNode_some {α : Type} {k : Vnode → Kern α} (hv : s.node ev = some v) :
    s.withNode ev k = k v := by
  simp only [withNode,hv]

theorem withNode_ok {k : Vnode → Kern State} (h : s.withNode ev k = .ok s') :
    ∃ v, k v = .ok s' := by
  unfold withNode at h
  split at h
  · exact ⟨_,h⟩
  · cases h

theorem unlock_local (h : Inv s) (hrec : (s.pc t).reclaiming = none)
    (hlock : (s.pc t).locked = true) : Inv (s.goto t .unlock) := by
  have hold : (s.pc t).killing = false := by
    cases hpc : s.pc t with
    | reclaimKill => rw [hpc] at hrec; cases hrec
    | _ => rfl
  exact h.pass rfl hold hrec.symm (fun _ _ => Iff.rfl)
    (iff_of_true rfl ((h.threads t).locks.mp hlock)) trivial

theorem live_of_held (h : Inv s) (hmem : (t, ev) ∈ s.held) : ∃ v, s.node ev = some v := by
  cases hn : s.node ev with
  | some v => exact ⟨v,rfl⟩
  | none =>
    have := refs_pos hmem
    rw [(h.dead ev hn).1] at this
    cases this

theorem pool_of_reclaimRemove (h : Inv s) (hpc : s.pc t = .reclaimRemove ev) : ev ∈ s.vnodes := by
  have hrec : (s.pc t).reclaiming = some ev := by rw [hpc]; rfl
  obtain ⟨v,hv⟩ := h.live_of_reclaiming hrec
  by_contra hmem
  obtain ⟨u,hu⟩ := h.unpooled ev v hv hmem
  have hclaim := ((h.threads t).claims ev).mpr hrec
  have hclaim' := ((h.threads u).claims ev).mpr (by rw [hu]; rfl)
  obtain rfl : t = u := Option.some.inj (hclaim.symm.trans hclaim')
  rw [hpc] at hu
  cases hu

theorem find_live {l : List Nat} (hl : ∀ ev ∈ l, ∃ v, s.node ev = some v) (handle : Nat) :
    ∃ r, s.findHandle handle l = .ok r ∧ ∀ ev, r = some ev → ev ∈ l := by
  induction l with
  | nil => exact ⟨none,rfl,nofun⟩
  | cons e l ih =>
    obtain ⟨v,hv⟩ := hl e List.mem_cons_self
    obtain ⟨r,hr,hmem⟩ := ih fun ev hev => hl ev (List.mem_cons_of_mem e hev)
    unfold findHandle
    rw [withNode_some hv]
    split
    · exact ⟨some e,rfl,fun ev hev => by cases hev; exact List.mem_cons_self⟩
    · exact ⟨r,hr,fun ev hev => List.mem_cons_of_mem e (hmem ev hev)⟩

theorem advance {k : Kern State} {ok : Bool} (h : Inv s) (hs : s.advance t ok = some k) :
    (∃ s', k = .ok s' ∧ Inv s') ∨ s.Saturated ∧ ∃ e, k = .error e := by
  have ht := h.threads t
  unfold State.advance at hs
  cases hpc : s.pc t with
  | idle =>
    rw [hpc] at hs
    cases hs
  | loadLock handle =>
    rw [hpc] at hs
    obtain ⟨hfree,⟨⟩⟩ := Option.ite_none_right_eq_some.mp hs
    refine .inl ⟨_,rfl,h.pass hpc rfl rfl (fun u hu => ?_) (iff_of_true rfl rfl) trivial⟩
    simp [hfree,Ne.symm hu]
  | loadScan handle =>
    rw [hpc] at hs ht
    have hlock := ht.locks.mp rfl
    obtain ⟨r,hr,hmem⟩ := find_live h.pooled handle
    dsimp only at hs
    rw [hr,ok_bind] at hs
    cases r with
    | some ev =>
      cases hs
      exact .inl ⟨_,rfl,h.pass hpc rfl rfl (fun _ _ => Iff.rfl) (iff_of_true rfl hlock)
        (hmem ev rfl)⟩
    | none =>
      cases hs
      exact .inl ⟨_,rfl,h.pass hpc rfl rfl (fun _ _ => Iff.rfl) (iff_of_true rfl hlock) trivial⟩
  | loadIncref ev =>
    rw [hpc] at hs
    obtain ⟨v,hv⟩ := h.pooled ev (ht.found ev hpc)
    dsimp only at hs
    rw [withNode_some hv] at hs
    by_cases hmax : intMax ≤ v.refcount
    · cases hs
      exact .inr ⟨⟨ev,v,hv,hmax⟩,_,by rw [assert,if_neg (by simpa using hmax)]; rfl⟩
    rw [assert_of (by simpa using hmax),ok_bind] at hs
    cases hs
    refine .inl ⟨_,rfl,(h.incref hpc hv).unlock_local (t := t) ?_ ?_⟩
    · show (s.pc t).reclaiming = none
      rw [hpc]
      rfl
    · show (s.pc t).locked = true
      rw [hpc]
      rfl
  | loadCreate handle =>
    rw [hpc] at hs
    cases hs
    refine .inl ⟨_,rfl,?_⟩
    split
    · refine (h.create t handle).unlock_local (t := t) ?_ ?_
      · rw [hpc]
        rfl
      · rw [hpc]
        rfl
    · exact h.unlock_local (by rw [hpc]; rfl) (by rw [hpc]; rfl)
  | decref ev =>
    rw [hpc] at hs
    have hmem := ht.holder ev hpc
    obtain ⟨v,hv⟩ := h.live_of_held hmem
    have hpos := h.positive ev v hv
    dsimp only at hs
    rw [withNode_some hv,assert_of (by simpa using hpos),ok_bind] at hs
    split at hs
    · rename_i hmany
      cases hs
      rw [hpc] at ht
      have hidle : Inv (s.goto t .idle) :=
        h.pass hpc rfl rfl (fun _ _ => Iff.rfl) ht.locks trivial
      exact .inl ⟨_,rfl,hidle.decref (by simp [goto]) hmem hv hmany⟩
    · rename_i hone
      cases hs
      exact .inl ⟨_,rfl,h.claimed hpc hv (by omega)⟩
  | reclaimLock ev =>
    have hrec : (s.pc t).reclaiming = some ev := by rw [hpc]; rfl
    obtain ⟨v,hv⟩ := h.live_of_reclaiming hrec
    rw [hpc] at hs
    dsimp only at hs
    rw [withNode_some hv] at hs
    obtain ⟨hfree,⟨⟩⟩ := Option.ite_none_right_eq_some.mp hs
    refine .inl ⟨_,rfl,h.pass hpc rfl rfl (fun u hu => ?_) (iff_of_true rfl rfl) trivial⟩
    simp [hfree,Ne.symm hu]
  | reclaimTest ev =>
    rw [hpc] at hs
    have hrec : (s.pc t).reclaiming = some ev := by rw [hpc]; rfl
    obtain ⟨v,hv⟩ := h.live_of_reclaiming hrec
    dsimp only at hs
    rw [withNode_some hv] at hs
    cases hs
    refine .inl ⟨_,rfl,?_⟩
    split
    · exact h.lost hrec (by rw [hpc]; rfl)
    · rename_i hone
      have hcount := h.count ev v hv
      rw [(ht.claims ev).mpr hrec,Option.toList_some,List.length_singleton] at hcount
      rw [hpc] at ht
      exact h.pass hpc rfl rfl (fun _ _ => Iff.rfl) ht.locks ⟨by omega,by omega⟩
  | reclaimClose ev =>
    have hrec : (s.pc t).reclaiming = some ev := by rw [hpc]; rfl
    obtain ⟨v,hv⟩ := h.live_of_reclaiming hrec
    rw [hpc] at hs
    dsimp only at hs
    rw [withNode_some hv] at hs
    cases hs
    refine .inl ⟨_,rfl,?_⟩
    split
    · rw [hpc] at ht
      exact h.pass hpc rfl rfl (fun _ _ => Iff.rfl) ht.locks (ht.last ev rfl)
    · exact h.lost (by rw [hpc]; rfl) (by rw [hpc]; rfl)
  | reclaimRemove ev =>
    rw [hpc] at hs
    dsimp only at hs
    rw [assert_of (by simpa using h.pool_of_reclaimRemove hpc),ok_bind] at hs
    cases hs
    exact .inl ⟨_,rfl,h.removed hpc⟩
  | reclaimKill ev =>
    rw [hpc] at hs
    have hrec : (s.pc t).reclaiming = some ev := by rw [hpc]; rfl
    obtain ⟨v,hv⟩ := h.live_of_reclaiming hrec
    have hcount := h.count ev v hv
    rw [(ht.claims ev).mpr hrec,Option.toList_some,List.length_singleton,
      (ht.last ev (by rw [hpc]; rfl)).1,(ht.last ev (by rw [hpc]; rfl)).2] at hcount
    dsimp only at hs
    rw [withNode_some hv,assert_of (by simpa using hcount),ok_bind] at hs
    cases hs
    exact .inl ⟨_,rfl,h.killed hpc⟩
  | unlock =>
    rw [hpc] at hs ht
    have hlock := ht.locks.mp rfl
    cases hs
    refine .inl ⟨_,rfl,h.pass hpc rfl rfl (fun u hu => ?_) (by simp [Pc.locked]) trivial⟩
    simp [hlock,Ne.symm hu]

theorem call {k : Kern State} {act : Act} (h : Inv s) (hs : s.call act = some k) :
    (∃ s', k = .ok s' ∧ Inv s') ∨ s.Saturated ∧ ∃ e, k = .error e := by
  cases act with
  | run t ok => exact h.advance hs
  | load t handle =>
    obtain ⟨hpc,hs⟩ := Option.ite_none_right_eq_some.mp hs
    have ht := h.threads t
    rw [hpc] at ht
    cases hs
    exact .inl ⟨_,rfl,h.pass hpc rfl rfl (fun _ _ => Iff.rfl) ht.locks trivial⟩
  | decref t ev =>
    obtain ⟨hc,hs⟩ := Option.ite_none_right_eq_some.mp hs
    obtain ⟨hpc,hmem⟩ := hc
    have ht := h.threads t
    rw [hpc] at ht
    cases hs
    exact .inl ⟨_,rfl,h.pass hpc rfl rfl (fun _ _ => Iff.rfl) ht.locks hmem⟩

theorem step {act : Act} (h : Inv s) (hs : s.step act = some s') : Inv s' := by
  obtain ⟨k,hk,hok⟩ := Option.bind_eq_some_iff.mp hs
  obtain rfl := ok_of_toOption hok
  rcases h.call hk with ⟨u,heq,hu⟩ | ⟨-,e,herr⟩
  · cases heq
    exact hu
  · cases herr

theorem settled_of {ok : Bool} (hpc : s.pc t = pc) (htest : ∀ ev, pc ≠ .reclaimTest ev)
    (hclose : ∀ ev, pc ≠ .reclaimClose ev) : s.Settled (.run t ok) :=
  ⟨fun ev _ hev => absurd (hpc.symm.trans hev) (htest ev),
    fun ev hev => absurd (hpc.symm.trans hev) (hclose ev)⟩

theorem leaks {act : Act} (h : Inv s) (hs : s.step act = some s') :
    (s.Settled act ∧ s'.leaked = s.leaked) ∨
      (¬ s.Settled act ∧ ∃ ev, s'.leaked = Function.update s.leaked ev (s.leaked ev + 1)) := by
  obtain ⟨k,hk,hok⟩ := Option.bind_eq_some_iff.mp hs
  cases ok_of_toOption hok
  cases act with
  | load t handle | decref t ev =>
    obtain ⟨-,⟨⟩⟩ := Option.ite_none_right_eq_some.mp hk
    exact .inl ⟨trivial,rfl⟩
  | run t ok =>
    have hk : s.advance t ok = some (.ok s') := hk
    have ht := h.threads t
    unfold State.advance at hk
    cases hpc : s.pc t with
    | idle =>
      rw [hpc] at hk
      cases hk
    | loadLock handle =>
      rw [hpc] at hk
      obtain ⟨-,⟨⟩⟩ := Option.ite_none_right_eq_some.mp hk
      exact .inl ⟨settled_of hpc nofun nofun,rfl⟩
    | reclaimLock ev =>
      rw [hpc] at hk
      obtain ⟨-,hk⟩ := Option.ite_none_right_eq_some.mp hk
      obtain ⟨v,hv⟩ := withNode_ok (Option.some.inj hk)
      cases hv
      exact .inl ⟨settled_of hpc nofun nofun,rfl⟩
    | loadScan handle =>
      rw [hpc] at hk
      obtain ⟨r,-,hk⟩ := bind_ok (Option.some.inj hk)
      refine .inl ⟨settled_of hpc nofun nofun,?_⟩
      cases r <;> cases hk <;> rfl
    | loadCreate handle =>
      rw [hpc] at hk
      cases hk
      refine .inl ⟨settled_of hpc nofun nofun,?_⟩
      split <;> rfl
    | loadIncref ev =>
      rw [hpc] at hk
      obtain ⟨v,hv⟩ := withNode_ok (Option.some.inj hk)
      cases (assert_bind_ok hv).2
      exact .inl ⟨settled_of hpc nofun nofun,rfl⟩
    | decref ev =>
      rw [hpc] at hk
      obtain ⟨v,hv⟩ := h.live_of_held (ht.holder ev hpc)
      dsimp only at hk
      rw [withNode_some hv,assert_of (by simpa using h.positive ev v hv),ok_bind] at hk
      refine .inl ⟨settled_of hpc nofun nofun,?_⟩
      split at hk <;> cases hk <;> rfl
    | reclaimTest ev =>
      rw [hpc] at hk
      have hrec : (s.pc t).reclaiming = some ev := by rw [hpc]; rfl
      obtain ⟨v,hv⟩ := h.live_of_reclaiming hrec
      dsimp only at hk
      rw [withNode_some hv] at hk
      by_cases hone : v.refcount = 1
      · rw [if_neg (not_not.mpr hone)] at hk
        cases hk
        refine .inl ⟨⟨fun e w he hw => ?_,fun e he => absurd (hpc.symm.trans he) nofun⟩,rfl⟩
        cases hpc.symm.trans he
        rw [hv] at hw
        cases hw
        exact hone
      · rw [if_pos hone] at hk
        cases hk
        exact .inr ⟨fun hset => hone (hset.1 ev v hpc hv),ev,rfl⟩
    | reclaimClose ev =>
      rw [hpc] at hk
      obtain ⟨v,hk⟩ := withNode_ok (Option.some.inj hk)
      cases ok with
      | true =>
        cases hk
        exact .inl ⟨⟨fun e _ he => absurd (hpc.symm.trans he) nofun,fun _ _ => rfl⟩,rfl⟩
      | false =>
        cases hk
        exact .inr ⟨fun hset => absurd (hset.2 ev hpc) Bool.false_ne_true,ev,rfl⟩
    | reclaimRemove ev =>
      rw [hpc] at hk
      dsimp only at hk
      rw [assert_of (by simpa using h.pool_of_reclaimRemove hpc),ok_bind] at hk
      cases hk
      exact .inl ⟨settled_of hpc nofun nofun,rfl⟩
    | reclaimKill ev =>
      rw [hpc] at hk
      have hrec : (s.pc t).reclaiming = some ev := by rw [hpc]; rfl
      obtain ⟨v,hv⟩ := h.live_of_reclaiming hrec
      dsimp only at hk
      rw [withNode_some hv] at hk
      cases (assert_bind_ok (Option.some.inj hk)).2
      exact .inl ⟨settled_of hpc nofun nofun,rfl⟩
    | unlock =>
      rw [hpc] at hk
      cases hk
      exact .inl ⟨settled_of hpc nofun nofun,rfl⟩

theorem leaked_mono {act : Act} (h : Inv s) (hs : s.step act = some s') (ev : Nat) :
    s.leaked ev ≤ s'.leaked ev := by
  rcases h.leaks hs with ⟨_,heq⟩ | ⟨_,e,heq⟩
  · exact Nat.le_of_eq (congrFun heq ev).symm
  · rw [heq]
    rcases eq_or_ne ev e with rfl | hne
    · rw [update_self]
      exact Nat.le_succ _
    · exact Nat.le_of_eq (update_of_ne hne ..).symm

theorem settled_iff_unleaked {acts : List Act} (h : Inv s) (h0 : ∀ ev, s.leaked ev = 0)
    (hrun : Run.exec State.step s acts = some s') :
    Run.Along State.step State.Settled s acts ↔ ∀ ev, s'.leaked ev = 0 := by
  induction acts generalizing s with
  | nil =>
    cases hrun
    exact iff_of_true trivial h0
  | cons act acts ih =>
    obtain ⟨u,hu,hrest⟩ := Run.exec_cons.mp hrun
    have hi := h.step hu
    rcases h.leaks hu with ⟨hset,heq⟩ | ⟨hset,e,heq⟩
    · rw [← ih hi (by rw [heq]; exact h0) hrest]
      refine ⟨fun ha => ha.2 u hu,fun ha => ⟨hset,fun w hw => ?_⟩⟩
      rw [hu] at hw
      cases hw
      exact ha
    · refine iff_of_false (fun ha => hset ha.1) fun hzero => ?_
      have hpos : 0 < u.leaked e := by
        rw [heq,update_self]
        exact Nat.succ_pos _
      have hkept : Inv s' ∧ 0 < s'.leaked e :=
        Run.invariant (P := fun _ _ => True) (I := fun s => Inv s ∧ 0 < s.leaked e)
          (fun _ _ _ hi _ hs => ⟨hi.1.step hs,Nat.lt_of_lt_of_le hi.2 (hi.1.leaked_mono hs e)⟩)
          ⟨hi,hpos⟩ (Run.along_of_forall (P := fun _ => True) fun _ _ => trivial) hrest
      rw [hzero e] at hkept
      exact absurd hkept.2 (Nat.lt_irrefl 0)

theorem along {acts : List Act} (hrun : Run.exec State.step State.boot acts = some s) : Inv s :=
  Run.invariant (P := fun _ _ => True) (fun _ _ _ h _ hs => h.step hs) Inv.boot
    (Run.along_of_forall (P := fun _ => True) fun _ _ => trivial) hrun

end Inv

theorem references_survive_iff {acts : List Act} {s : State}
    (hrun : Run.exec State.step State.boot acts = some s) (hidle : ∀ t, s.pc t = .idle) :
    (∀ ev v, s.node ev = some v → ev ∈ s.vnodes ∧ v.refcount = s.refs ev ∧ 0 < s.refs ev) ↔
      Run.Along State.step State.Settled State.boot acts := by
  have h := Inv.along hrun
  rw [Inv.boot.settled_iff_unleaked (fun _ => rfl) hrun]
  have hclaim : ∀ ev, s.claim ev = none := by
    intro ev
    cases hc : s.claim ev with
    | none => rfl
    | some t =>
      have := ((h.threads t).claims ev).mp hc
      rw [hidle t] at this
      cases this
  have hcount : ∀ ev v, s.node ev = some v → v.refcount = s.refs ev + s.leaked ev := by
    intro ev v hv
    have := h.count ev v hv
    rwa [hclaim ev] at this
  constructor
  · intro hall ev
    cases hn : s.node ev with
    | none => exact (h.dead ev hn).2.2
    | some v =>
      have := hcount ev v hn
      have := (hall ev v hn).2.1
      omega
  · intro hzero ev v hv
    have hc := hcount ev v hv
    have hp := h.positive ev v hv
    rw [hzero ev,Nat.add_zero] at hc
    refine ⟨?_,hc,by omega⟩
    by_contra hmem
    obtain ⟨t,ht⟩ := h.unpooled ev v hv hmem
    rw [hidle t] at ht
    cases ht

theorem no_panic_along {acts : List Act} {act : Act} {s : State} {k : Kern State}
    (hrun : Run.exec State.step State.boot acts = some s) (hk : s.call act = some k)
    (hmax : ∀ ev v, s.node ev = some v → v.refcount < intMax) : ∃ s', k = .ok s' := by
  rcases (Inv.along hrun).call hk with ⟨s',hs',-⟩ | ⟨⟨ev,v,hv,hle⟩,-⟩
  · exact ⟨s',hs'⟩
  · exact absurd (hmax ev v hv) (Nat.not_lt.mpr hle)

def loadThenReclaim : List Act :=
  .load 1 5 :: List.replicate 4 (.run 1 true) ++ .decref 1 1 :: List.replicate 5 (.run 1 true)

theorem no_panic_last_release : ∃ s s', Run.exec State.step State.boot loadThenReclaim = some s ∧
    s.pc 1 = .reclaimKill 1 ∧ s.call (.run 1 true) = some (.ok s') := by
  have hview : (Run.exec State.step State.boot loadThenReclaim).map
      (fun s => (s.pc 1, s.next, s.node 0, s.node 1)) =
        some (.reclaimKill 1, 2, some ⟨0,1⟩, some ⟨5,1⟩) := by
    decide +kernel
  obtain ⟨s,hrun,hv⟩ := Option.map_eq_some_iff.mp hview
  simp only [Prod.mk.injEq] at hv
  obtain ⟨hpc,hnext,hroot,hnode⟩ := hv
  have hmax : ∀ ev v, s.node ev = some v → v.refcount < intMax := by
    intro ev v hv
    have hlt := (Inv.along hrun).fresh ev v hv
    rw [hnext] at hlt
    rcases (show ev = 0 ∨ ev = 1 by omega) with rfl | rfl
    · cases hroot.symm.trans hv
      decide
    · cases hnode.symm.trans hv
      decide
  have hk : ∃ k, s.call (.run 1 true) = some k := by
    simp only [State.call,State.advance,hpc]
    exact ⟨_,rfl⟩
  obtain ⟨k,hk⟩ := hk
  obtain ⟨s',rfl⟩ := no_panic_along hrun hk hmax
  exact ⟨s,s',hrun,hpc,hk⟩

section
open State

theorem advance_pc {s s' : State} {t : Nat} {ok : Bool} (h : s.advance t ok = some (.ok s')) :
    ∃ pc, s'.pc = Function.update s.pc t pc := by
  unfold State.advance at h
  split at h
  case h_1 | h_12 => cases h <;> exact ⟨_,rfl⟩
  case h_2 =>
    obtain ⟨-,⟨⟩⟩ := Option.ite_none_right_eq_some.mp h
    exact ⟨_,rfl⟩
  case h_3 =>
    obtain ⟨r,-,h⟩ := bind_ok (Option.some.inj h)
    cases r <;> cases h <;> exact ⟨_,rfl⟩
  case h_4 =>
    obtain ⟨v,hv⟩ := Inv.withNode_ok (Option.some.inj h)
    cases (assert_bind_ok hv).2
    exact ⟨_,rfl⟩
  case h_5 =>
    have h := Option.some.inj h
    split at h <;> cases h <;> exact ⟨_,rfl⟩
  case h_6 =>
    obtain ⟨v,hv⟩ := Inv.withNode_ok (Option.some.inj h)
    have hv := (assert_bind_ok hv).2
    split at hv <;> cases hv <;> exact ⟨_,rfl⟩
  case h_7 =>
    obtain ⟨-,h⟩ := Option.ite_none_right_eq_some.mp h
    obtain ⟨v,hv⟩ := Inv.withNode_ok (Option.some.inj h)
    cases hv
    exact ⟨_,rfl⟩
  case h_8 | h_9 =>
    obtain ⟨v,hv⟩ := Inv.withNode_ok (Option.some.inj h)
    split at hv <;> cases hv <;> exact ⟨_,rfl⟩
  case h_10 =>
    cases (assert_bind_ok (Option.some.inj h)).2
    exact ⟨_,rfl⟩
  case h_11 =>
    obtain ⟨v,hv⟩ := Inv.withNode_ok (Option.some.inj h)
    cases (assert_bind_ok hv).2
    exact ⟨_,rfl⟩

def Act.thread : Act → Nat
  | .load t _ | .decref t _ | .run t _ => t

theorem step_pc {s s' : State} {act : Act} {u : Nat} (hs : s.step act = some s')
    (hu : u ≠ act.thread) : s'.pc u = s.pc u := by
  obtain ⟨k,hk,hok⟩ := Option.bind_eq_some_iff.mp hs
  cases ok_of_toOption hok
  cases act with
  | run t ok =>
    obtain ⟨pc,hpc⟩ := advance_pc hk
    rw [hpc]
    exact update_of_ne hu ..
  | load t handle | decref t ev =>
    obtain ⟨-,⟨⟩⟩ := Option.ite_none_right_eq_some.mp hk
    exact Inv.goto_ne hu

theorem exec_pc {s s' : State} {acts : List Act} {u : Nat}
    (hrun : Run.exec State.step s acts = some s') (hu : ∀ act ∈ acts, u ≠ act.thread) :
    s'.pc u = s.pc u :=
  Run.invariant (P := fun _ act => u ≠ act.thread) (I := fun w => w.pc u = s.pc u)
    (fun _ _ _ hi hp hs => (step_pc hs hp).trans hi) rfl
    (Run.along_of_forall (P := fun act : Act => u ≠ act.thread) hu) hrun

theorem idle_of_two {s : State} {acts : List Act}
    (hrun : Run.exec State.step State.boot acts = some s)
    (hacts : (acts.all fun act : Act => act.thread == 1 || act.thread == 2) = true)
    (h1 : s.pc 1 = .idle) (h2 : s.pc 2 = .idle) (t : Nat) : s.pc t = .idle := by
  by_cases ht : t = 1 ∨ t = 2
  · rcases ht with rfl | rfl
    · exact h1
    · exact h2
  · refine exec_pc hrun fun act hact he => ht ?_
    have := List.all_eq_true.mp hacts act hact
    simpa [← he] using this

end

def loadThenRelease : List Act :=
  [.load 1 5, .run 1 true, .run 1 true, .run 1 true, .run 1 true, .load 2 5, .run 2 true,
    .run 2 true, .run 2 true, .run 2 true, .decref 1 1, .run 1 true]

def settledCheck (s : State) : Act → Bool
  | .run t ok =>
    match s.pc t with
    | .reclaimTest ev => (s.node ev).all fun v => v.refcount == 1
    | .reclaimClose _ => ok
    | _ => true
  | _ => true

theorem settled_of_check {s : State} {act : Act} (h : settledCheck s act = true) :
    s.Settled act := by
  cases act with
  | run t ok =>
    refine ⟨fun ev v hpc hv => ?_,fun ev hpc => ?_⟩
    · simpa [settledCheck,hpc,hv] using h
    · simpa [settledCheck,hpc] using h
  | _ => trivial

theorem references_survive_load_then_release : ∃ s,
    Run.exec State.step State.boot loadThenRelease = some s ∧ s.held = [(2, 1)] ∧
    ∀ v, s.node 1 = some v → v.refcount = 1 := by
  have hview : (Run.exec State.step State.boot loadThenRelease).map
      (fun s => (s.pc 1, s.pc 2, s.held, Run.check State.step settledCheck .boot loadThenRelease)) =
      some (.idle, .idle, [(2, 1)], true) := by
    decide +kernel
  obtain ⟨s,hrun,hv⟩ := Option.map_eq_some_iff.mp hview
  simp only [Prod.mk.injEq] at hv
  obtain ⟨h1,h2,hheld,hcheck⟩ := hv
  have hroot : s.root = 0 := by
    have hroot : (Run.exec State.step State.boot loadThenRelease).map (·.root) = some 0 := by
      decide +kernel
    rw [hrun] at hroot
    exact Option.some.inj hroot
  refine ⟨s,hrun,hheld,fun v hnode => ?_⟩
  have hsettled := Run.along_mono (fun _ _ => settled_of_check) (Run.along_of_check hcheck)
  have hall := (references_survive_iff hrun
    (idle_of_two hrun (by decide) h1 h2)).mpr hsettled 1 v hnode
  rw [hall.2.1,State.refs,hheld,hroot]
  decide

def reviveThenRelease : List Act :=
  [.load 1 5, .run 1 true, .run 1 true, .run 1 true, .run 1 true, .decref 1 1, .run 1 true,
    .load 2 5, .run 2 true, .run 2 true, .run 2 true, .run 2 true, .run 1 true, .run 1 true,
    .run 1 true, .decref 2 1, .run 2 true]

theorem revived_vnode_never_reclaimed : ∃ s,
    Run.exec State.step State.boot reviveThenRelease = some s ∧ (∀ t, s.pc t = .idle) ∧
    s.held = [] ∧ s.vnodes = [0, 1] ∧ s.node 1 = some ⟨5, 1⟩ := by
  have hview : (Run.exec State.step State.boot reviveThenRelease).map
      (fun s => ((s.pc 1, s.pc 2), s.held, s.vnodes, s.node 1)) =
      some ((.idle, .idle), [], [0,1], some ⟨5,1⟩) := by
    decide +kernel
  obtain ⟨s,hrun,hv⟩ := Option.map_eq_some_iff.mp hview
  simp only [Prod.mk.injEq] at hv
  exact ⟨s,hrun,idle_of_two hrun (by decide) hv.1.1 hv.1.2,hv.2⟩

end OS161.Vfs.Emufs
