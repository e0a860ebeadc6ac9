import OS161.Thread.Interleave

namespace OS161.Thread

open Function

structure LockCv where
  held : Bool
  pointer : Option Nat
  owns : Nat → Bool
  -- the cv of a thread that has given up the lock in cv_wait and was not yet signalled
  waiting : Nat → Option Nat

inductive LockPc where
  | user
  | acqAssert (caller : Option Nat)
  | acqSpl (caller : Option Nat)
  | acqTest (caller : Option Nat) (spl : Nat)
  | acqAwake (caller : Option Nat) (spl : Nat)
  | acqHeld (caller : Option Nat) (spl : Nat)
  | acqPtr (caller : Option Nat) (spl : Nat)
  | acqSplx (caller : Option Nat) (spl : Nat)
  | relSpl (caller : Option (Nat × Nat))
  | relHeld (caller : Option (Nat × Nat)) (spl : Nat)
  | relWakeup (caller : Option (Nat × Nat)) (spl : Nat)
  | relPtr (caller : Option (Nat × Nat)) (spl : Nat)
  | relSplx (caller : Option (Nat × Nat)) (spl : Nat)
  | waitAssert (cv : Nat)
  | waitSpl (cv : Nat)
  | waitSleep (cv spl : Nat)
  | waitAwake (spl : Nat)
  | waitSplx (spl : Nat)
  | sigSpl (single : Bool) (cv : Nat)
  | sigWakeup (single : Bool) (cv spl : Nat)
  | sigSplx (spl : Nat)
  deriving DecidableEq, Repr

namespace LockCv

def create : LockCv := ⟨false, none, fun _ => false, fun _ => none⟩

def acquired : Option Nat → LockPc
  | none => .user
  | some spl => .waitSplx spl

def released : Option (Nat × Nat) → LockPc
  | none => .user
  | some (cv, spl) => .waitSleep cv spl

def signalled (m : LockCv) (cv : Nat) (woken : List Nat) : LockCv :=
  { m with waiting := fun t => if t ∈ woken ∧ m.waiting t = some cv then none else m.waiting t }

def exec (lock cur spl : Nat) (m : LockCv) : LockPc → Option (Cmd LockPc LockCv)
  | .user => none
  | .acqAssert k => if m.pointer = some cur then none else some (.goto m (.acqSpl k))
  | .acqSpl k => some (.splx splHigh (.acqTest k spl))
  | .acqTest k s => some (if m.held then .sleep lock (.acqAwake k s) else .goto m (.acqHeld k s))
  | .acqAwake k s => some (.awake (.acqTest k s))
  | .acqHeld k s =>
    some (.goto { m with held := true, owns := Function.update m.owns cur true } (.acqPtr k s))
  | .acqPtr k s => some (.goto { m with pointer := some cur } (.acqSplx k s))
  | .acqSplx k s => some (.splx s (acquired k))
  | .relSpl k => some (.splx splHigh (.relHeld k spl))
  | .relHeld k s =>
    some (.goto
      { m with
        held := false
        owns := Function.update m.owns cur false
        waiting := Function.update m.waiting cur (k.map Prod.fst) } (.relWakeup k s))
  | .relWakeup k s => some (.wakeup lock false (fun _ => m) (.relPtr k s))
  | .relPtr k s => some (.goto { m with pointer := none } (.relSplx k s))
  | .relSplx k s => some (.splx s (released k))
  | .waitAssert cv => if m.pointer = some cur then some (.goto m (.waitSpl cv)) else none
  | .waitSpl cv => some (.splx splHigh (.relSpl (some (cv, spl))))
  | .waitSleep cv s => some (.sleep cv (.waitAwake s))
  | .waitAwake s => some (.awake (.acqAssert (some s)))
  | .waitSplx s => some (.splx s .user)
  | .sigSpl single cv => some (.splx splHigh (.sigWakeup single cv spl))
  | .sigWakeup single cv s => some (.wakeup cv single (m.signalled cv) (.sigSplx s))
  | .sigSplx s => some (.splx s .user)

def entry (lock cur : Nat) (m : LockCv) : LockPc → Bool
  | .acqAssert none => true
  | .relSpl none => m.owns cur
  | .waitAssert cv => m.owns cur && cv != lock
  | .sigSpl _ cv => cv != lock
  | _ => false

def prog (lock : Nat) : Prog LockPc LockCv where
  user := .user
  entry := entry lock
  exec := exec lock
  irq _ := none

def acqLevel : Option Nat → Option Nat
  | none => some 0
  | some spl => if spl = 0 then some splHigh else none

def relLevel : Option (Nat × Nat) → Option Nat
  | none => some 0
  | some (_, spl) => if spl = 0 then some splHigh else none

def inside (outer : Option Nat) (spl : Nat) : Option Nat :=
  if outer = some spl then some splHigh else none

def level : LockPc → Option Nat
  | .user | .waitAssert _ | .waitSpl _ | .sigSpl _ _ => some 0
  | .acqAssert k | .acqSpl k => acqLevel k
  | .acqTest k s | .acqAwake k s | .acqHeld k s | .acqPtr k s | .acqSplx k s =>
    inside (acqLevel k) s
  | .relSpl k => relLevel k
  | .relHeld k s | .relWakeup k s | .relPtr k s | .relSplx k s => inside (relLevel k) s
  | .waitSleep _ s | .waitAwake s | .waitSplx s | .sigWakeup _ _ s | .sigSplx s =>
    inside (some 0) s

def rest : LockPc → Bool
  | .acqAwake _ _ | .waitAwake _ => true
  | _ => false

section

theorem of_inside {outer : Option Nat} {s spl : Nat} (h : inside outer s = some spl) :
    outer = some s ∧ spl = splHigh := by
  unfold inside at h
  split at h
  · rename_i ho
    exact ⟨ho,(Option.some.inj h).symm⟩
  · cases h

theorem inside_self {outer : Option Nat} {s : Nat} (h : outer = some s) :
    inside outer s = some splHigh := if_pos h

theorem level_acquired {k : Option Nat} {s : Nat} (h : acqLevel k = some s) :
    level (acquired k) = some s := by
  cases k with
  | none => exact h
  | some spl =>
    unfold acqLevel at h
    dsimp only at h
    split at h
    · rename_i h0
      subst h0
      exact h
    · cases h

theorem level_released {k : Option (Nat × Nat)} {s : Nat} (h : relLevel k = some s) :
    level (released k) = some s := by
  rcases k with _ | ⟨cv,spl⟩
  · exact h
  · unfold relLevel at h
    dsimp only at h
    split at h
    · rename_i h0
      subst h0
      exact h
    · cases h

theorem lawful (lock : Nat) : Lawful (prog lock) level rest where
  user := rfl
  entry t m p hp := by
    change entry lock t m p = true at hp
    cases p with
    | acqAssert k | relSpl k => cases k <;> first | rfl | cases hp
    | waitAssert cv | sigSpl single cv => rfl
    | _ => cases hp
  exec t spl m p cmd hl he := by
    change exec lock t spl m p = some cmd at he
    cases p with
    | user => cases he
    | acqAssert k =>
      obtain ⟨-,⟨⟩⟩ := Option.ite_none_left_eq_some.mp he
      exact hl
    | waitAssert cv =>
      obtain ⟨-,⟨⟩⟩ := Option.ite_none_right_eq_some.mp he
      exact hl
    | acqSpl k | relSpl k =>
      cases he
      exact inside_self hl
    | waitSpl cv | sigSpl single cv =>
      cases hl
      cases he
      rfl
    | acqTest k s =>
      obtain ⟨hk,rfl⟩ := of_inside hl
      cases he
      split
      · exact ⟨inside_self hk,rfl,rfl⟩
      · exact hl
    | acqAwake k s | acqHeld k s | acqPtr k s | relHeld k s | relWakeup k s | relPtr k s
    | sigWakeup single cv s =>
      cases he
      exact hl
    | acqSplx k s =>
      cases he
      exact level_acquired (of_inside hl).1
    | relSplx k s =>
      cases he
      exact level_released (of_inside hl).1
    | waitSleep cv s =>
      obtain ⟨_,rfl⟩ := of_inside hl
      cases he
      exact ⟨hl,rfl,rfl⟩
    | waitAwake s =>
      obtain ⟨h0,rfl⟩ := of_inside hl
      cases h0
      cases he
      rfl
    | waitSplx s | sigSplx s =>
      cases he
      exact (of_inside hl).1

end

def cvOf (lock : Nat) : Option (Nat × Nat) → Prop
  | none => True
  | some (cv, _) => cv ≠ lock

def PcOk (lock : Nat) (m : LockCv) (t : Nat) : LockPc → Prop
  | .acqPtr _ _ | .acqSplx _ _ | .waitSplx _ => m.owns t = true
  | .acqHeld _ _ => m.held = false
  | .relSpl k | .relHeld k _ => m.owns t = true ∧ cvOf lock k
  | .relWakeup k _ | .relPtr k _ | .relSplx k _ => m.held = false ∧ cvOf lock k
  | .waitAssert cv | .waitSpl cv => m.owns t = true ∧ cv ≠ lock
  | .waitSleep cv _ => m.held = false ∧ cv ≠ lock
  | .sigSpl _ cv | .sigWakeup _ cv _ => cv ≠ lock
  | _ => True

def stale : LockPc → Bool
  | .acqPtr _ _ | .relWakeup _ _ | .relPtr _ _ => true
  | _ => false

def wakesLock : LockPc → Bool
  | .relWakeup _ _ => true
  | _ => false

def givesUp (cv : Nat) : LockPc → Bool
  | .relWakeup (some (c, _)) _ | .relPtr (some (c, _)) _ | .relSplx (some (c, _)) _
  | .waitSleep c _ => c == cv
  | _ => false

structure Law (lock : Nat) (c : Conf LockPc LockCv) : Prop where
  one : ∀ a b, c.mem.owns a = true → c.mem.owns b = true → a = b
  held : c.mem.held = true ↔ ∃ o, c.mem.owns o = true
  pointer : (∀ o, c.mem.pointer = some o ↔ c.mem.owns o = true) ∨ ∃ u, stale (c.pc u) = true
  pc : ∀ t, PcOk lock c.mem t (c.pc t)
  asleep : ∀ t, c.asleep lock t → c.mem.held = true ∨ ∃ u, wakesLock (c.pc u) = true
  falling : ∀ a t, c.falling a t → (c.mem.held = true ↔ a = lock)
  waiting : ∀ t cv, c.mem.waiting t = some cv → cv ≠ lock ∧
    (c.asleep cv t ∨ c.falling cv t ∨ givesUp cv (c.pc t) = true)

section Step
variable {lock t : Nat} {c c' : Conf LockPc LockCv} {p : LockPc}

theorem inside_ne_zero {outer : Option Nat} {s : Nat} : inside outer s ≠ some 0 := by
  unfold inside
  split <;> nofun

theorem stale_cur (h : Leveled (prog lock) level rest c) {u : Nat} (hu : stale (c.pc u) = true) :
    c.sys.curthread = some u := by
  refine h.critical_cur ?_ ?_ rfl
  · cases hp : c.pc u <;> rw [hp] at hu <;> first | exact inside_ne_zero | cases hu
  · cases hp : c.pc u <;> rw [hp] at hu <;> first | rfl | cases hu

theorem wakesLock_cur (h : Leveled (prog lock) level rest c) {u : Nat}
    (hu : wakesLock (c.pc u) = true) : c.sys.curthread = some u := by
  refine stale_cur h ?_
  cases hp : c.pc u <;> rw [hp] at hu <;> first | rfl | cases hu

theorem PcOk.other (h : Leveled (prog lock) level rest c) (hc : c.sys.curthread = some t)
    {u : Nat} (hu : u ≠ t) {m : LockCv} (ho : m.owns u = c.mem.owns u)
    (hp : PcOk lock c.mem u (c.pc u)) : PcOk lock m u (c.pc u) := by
  have hnot : level (c.pc u) = some 0 ∨ rest (c.pc u) = true := by
    by_contra hx
    rw [not_or,Bool.not_eq_true] at hx
    have := h.critical_cur hx.1 hx.2 rfl
    rw [hc] at this
    exact hu (Option.some.inj this).symm
  cases hpc : c.pc u with
  | acqHeld k s | relWakeup k s | relPtr k s | relSplx k s | waitSleep k s =>
    rw [hpc] at hnot
    rcases hnot with h0 | h1
    · exact absurd h0 inside_ne_zero
    · cases h1
  | acqPtr k s | acqSplx k s | waitSplx s =>
    rw [hpc] at hp
    exact ho.trans hp
  | relSpl k | relHeld k s | waitAssert k | waitSpl k =>
    rw [hpc] at hp
    exact ⟨ho.trans hp.1,hp.2⟩
  | sigSpl single k | sigWakeup single k s =>
    rw [hpc] at hp
    exact hp
  | _ => trivial

theorem free_of_givesUp {m : LockCv} {cv : Nat} (hp : PcOk lock m t p)
    (hg : givesUp cv p = true) : ¬ m.held = true := by
  have hfree : m.held = false := by
    cases p with
    | relWakeup k s | relPtr k s | relSplx k s | waitSleep k s => exact hp.1
    | _ => cases hg
  rw [hfree]
  exact Bool.false_ne_true

theorem givesUp_update (hgive : ∀ cv, givesUp cv (c.pc t) = true → givesUp cv p = true) {u cv : Nat}
    (hu : givesUp cv (c.pc u) = true) : givesUp cv (Function.update c.pc t p u) = true := by
  by_cases hut : u = t
  · subst hut
    rw [update_self]
    exact hgive cv hu
  · rw [update_of_ne hut]
    exact hu

theorem Law.not_owner (hs : Law lock c) (hh : c.mem.held = false) (o : Nat) :
    c.mem.owns o = false := by
  cases ho : c.mem.owns o with
  | false => rfl
  | true =>
    rw [hs.held.mpr ⟨o,ho⟩] at hh
    cases hh

section Current
variable (hs : Law lock c) (h : Leveled (prog lock) level rest c) (hc : c.sys.curthread = some t)
include hs h hc

theorem Law.pointer_cur (hp : stale (c.pc t) = false) (o : Nat) :
    c.mem.pointer = some o ↔ c.mem.owns o = true := by
  rcases hs.pointer with hok | ⟨u,hu⟩
  · exact hok o
  · have := stale_cur h hu
    rw [hc] at this
    obtain rfl := Option.some.inj this
    rw [hp] at hu
    cases hu

theorem Law.asleep_cur (hp : wakesLock (c.pc t) = false) {u : Nat} (hu : c.asleep lock u) :
    c.mem.held = true := by
  rcases hs.asleep u hu with hh | ⟨v,hv⟩
  · exact hh
  · have := wakesLock_cur h hv
    rw [hc] at this
    obtain rfl := Option.some.inj this
    rw [hp] at hv
    cases hv

theorem PcOk.update {m : LockCv} (ho : ∀ u, u ≠ t → m.owns u = c.mem.owns u) (hp : PcOk lock m t p)
    (u : Nat) : PcOk lock m u (Function.update c.pc t p u) := by
  by_cases hu : u = t
  · subst hu
    rw [update_self]
    exact hp
  · rw [update_of_ne hu]
    exact PcOk.other h hc hu (ho u hu) (hs.pc u)

theorem Law.keep (hmem : c'.mem = c.mem) (hpc : c'.pc = Function.update c.pc t p)
    (hsleep : ∀ a u, c'.asleep a u ↔ c.asleep a u) (hst : stale (c.pc t) = false)
    (hok : PcOk lock c.mem t p) (hfall : ∀ a u, c'.falling a u → (c.mem.held = true ↔ a = lock))
    (hgive : ∀ u cv, givesUp cv (c.pc u) = true → c'.falling cv u ∨ givesUp cv (c'.pc u) = true) :
    Law lock c' := by
  have hwl : wakesLock (c.pc t) = false := by
    cases hpc : c.pc t <;> rw [hpc] at hst <;> first | rfl | cases hst
  refine ⟨?_,?_,Or.inl fun o => ?_,fun u => ?_,fun u hu => Or.inl ?_,fun a u hx => ?_,
    fun u cv hu => ?_⟩
  · rw [hmem]
    exact hs.one
  · rw [hmem]
    exact hs.held
  · rw [hmem]
    exact hs.pointer_cur h hc hst o
  · rw [hmem,hpc]
    exact PcOk.update hs h hc (fun _ _ => rfl) hok u
  · rw [hmem]
    exact hs.asleep_cur h hc hwl ((hsleep lock u).mp hu)
  · rw [hmem]
    exact hfall a u hx
  · rw [hmem] at hu
    obtain ⟨hcv,hx⟩ := hs.waiting u cv hu
    refine ⟨hcv,?_⟩
    rcases hx with hx | hx | hx
    · exact Or.inl ((hsleep cv u).mpr hx)
    · exact absurd hx (h.not_falling hc cv u)
    · exact Or.inr (hgive u cv hx)

theorem Law.plain {cmd : Cmd LockPc LockCv} (hp : Performed c t cmd c') (hw : cmd.woken c.sys = [])
    (hm : cmd.mem c.mem [] = c.mem) (hns : ∀ a, cmd ≠ .sleep a cmd.pc)
    (hst : stale (c.pc t) = false) (hgive : ∀ cv, givesUp cv (c.pc t) = true → givesUp cv cmd.pc =
    true) (hok : PcOk lock c.mem t cmd.pc) : Law lock c' := by
  refine hs.keep h hc (by rw [hp.mem,hw,hm]) hp.pc (fun a u => ?_) hst hok
    (fun a u hx => absurd ((hp.falling a u).mp hx).2 (hns a)) fun u cv hx => .inr ?_
  · rw [hp.asleep,hw]
    exact and_iff_left List.not_mem_nil
  · rw [hp.pc]
    exact givesUp_update hgive hx

theorem Law.sleeps {a : Nat} (hp : Performed c t (.sleep a p) c') (hst : stale (c.pc t) = false)
    (hheld : c.mem.held = true ↔ a = lock) (hgive : ∀ cv, givesUp cv (c.pc t) = true → cv = a)
    (hok : PcOk lock c.mem t p) : Law lock c' := by
  refine hs.keep h hc hp.mem hp.pc (fun b u => ?_) hst hok (fun b u hx => ?_) fun u cv hx => ?_
  · rw [hp.asleep]
    exact and_iff_left List.not_mem_nil
  · obtain ⟨_,hcmd⟩ := (hp.falling b u).mp hx
    cases hcmd
    exact hheld
  · by_cases hut : u = t
    · subst hut
      obtain rfl := hgive cv hx
      exact Or.inl ((hp.falling cv u).mpr ⟨rfl,rfl⟩)
    · refine Or.inr ?_
      rw [hp.pc,update_of_ne hut]
      exact hx

section Assign
variable {m : LockCv} (hp : Performed c t (.goto m p) c')
include hp

theorem Law.assign (hone : ∀ a b, m.owns a = true → m.owns b = true → a = b)
    (hheld : m.held = true ↔ ∃ o, m.owns o = true)
    (hptr : (∀ o, m.pointer = some o ↔ m.owns o = true) ∨ stale p = true)
    (ho : ∀ u, u ≠ t → m.owns u = c.mem.owns u) (hok : PcOk lock m t p)
    (hsl : ∀ u, c.asleep lock u → m.held = true ∨ wakesLock p = true)
    (hwait : ∀ u, u ≠ t → m.waiting u = c.mem.waiting u)
    (hself : ∀ cv, m.waiting t = some cv → cv ≠ lock ∧ givesUp cv p = true) : Law lock c' := by
  have hmem : c'.mem = m := hp.mem
  have hpt : c'.pc t = p := by
    rw [hp.pc]
    exact update_self _ _ _
  have hsleep : ∀ a u, c'.asleep a u ↔ c.asleep a u := by
    intro a u
    rw [hp.asleep]
    exact and_iff_left List.not_mem_nil
  refine ⟨?_,?_,?_,fun u => ?_,fun u hu => ?_,fun a u hx => ?_,fun u cv hu => ?_⟩
  · rw [hmem]
    exact hone
  · rw [hmem]
    exact hheld
  · rw [hmem]
    exact hptr.imp_right fun hx => ⟨t,by rw [hpt]; exact hx⟩
  · rw [hmem,hp.pc]
    exact PcOk.update hs h hc ho hok u
  · rw [hmem]
    exact (hsl u ((hsleep lock u).mp hu)).imp_right fun hx => ⟨t,by rw [hpt]; exact hx⟩
  · exact nomatch ((hp.falling a u).mp hx).2
  · rw [hmem] at hu
    by_cases hut : u = t
    · subst hut
      obtain ⟨hcv,hg⟩ := hself cv hu
      exact ⟨hcv,Or.inr (Or.inr (by rw [hpt]; exact hg))⟩
    · rw [hwait u hut] at hu
      obtain ⟨hcv,hx⟩ := hs.waiting u cv hu
      refine ⟨hcv,?_⟩
      rcases hx with hx | hx | hx
      · exact Or.inl ((hsleep cv u).mpr hx)
      · exact absurd hx (h.not_falling hc cv u)
      · refine Or.inr (Or.inr ?_)
        rw [hp.pc]
        rw [update_of_ne hut]
        exact hx

end Assign

theorem Law.waiting_cur {cv : Nat} (hw : c.mem.waiting t = some cv) :
    cv ≠ lock ∧ givesUp cv (c.pc t) = true := by
  obtain ⟨hcv,hx⟩ := hs.waiting t cv hw
  refine ⟨hcv,?_⟩
  rcases hx with hx | hx | hx
  · exact absurd hx.1 (h.not_asleep hc)
  · exact absurd hx (h.not_falling hc cv t)
  · exact hx

theorem Law.acqHeld {k : Option Nat} {s : Nat} (hpc : c.pc t = .acqHeld k s)
    (hp : Performed c t (.goto { c.mem with
      held := true
      owns := Function.update c.mem.owns t true } (.acqPtr k s)) c') : Law lock c' := by
  have hpre := hs.pc t
  rw [hpc] at hpre
  have hother : ∀ u, u ≠ t → update c.mem.owns t true u = c.mem.owns u :=
    fun u hu => update_of_ne hu _ _
  have honly : ∀ u, update c.mem.owns t true u = true → u = t := by
    intro u hu
    by_contra hne
    rw [hother u hne,hs.not_owner hpre] at hu
    cases hu
  refine hs.assign h hc hp ?_ ?_ (Or.inr rfl) hother (update_self _ _ _)
    (fun _ _ => Or.inl rfl) (fun _ _ => rfl) fun cv hw => ?_
  · exact fun a b ha hb => (honly a ha).trans (honly b hb).symm
  · exact ⟨fun _ => ⟨t,update_self _ _ _⟩,fun _ => rfl⟩
  · have := (hs.waiting_cur h hc hw).2
    rw [hpc] at this
    cases this

theorem Law.acqPtr {k : Option Nat} {s : Nat} (hpc : c.pc t = .acqPtr k s) (hp : Performed c t
    (.goto { c.mem with pointer := some t } (.acqSplx k s)) c') : Law lock c' := by
  have hpre := hs.pc t
  rw [hpc] at hpre
  refine hs.assign h hc hp hs.one hs.held (Or.inl fun o => ?_) (fun _ _ => rfl) hpre
    (fun _ _ => Or.inl (hs.held.mpr ⟨t,hpre⟩)) (fun _ _ => rfl) fun cv hw => ?_
  · constructor
    · intro ho
      cases ho
      exact hpre
    · exact fun ho => congrArg some (hs.one t o hpre ho)
  · have := (hs.waiting_cur h hc hw).2
    rw [hpc] at this
    cases this

theorem Law.relHeld {k : Option (Nat × Nat)} {s : Nat} (hpc : c.pc t = .relHeld k s)
    (hp : Performed c t (.goto { c.mem with
      held := false
      owns := Function.update c.mem.owns t false
      waiting := Function.update c.mem.waiting t (k.map Prod.fst) } (.relWakeup k s)) c') :
    Law lock c' := by
  have hpre := hs.pc t
  rw [hpc] at hpre
  have hother : ∀ u, u ≠ t → update c.mem.owns t false u = c.mem.owns u :=
    fun u hu => update_of_ne hu _ _
  have hnone : ∀ u, update c.mem.owns t false u ≠ true := by
    intro u hu
    by_cases hut : u = t
    · rw [hut,update_self] at hu
      cases hu
    · rw [hother u hut] at hu
      exact hut (hs.one u t hu hpre.1)
  refine hs.assign h hc hp ?_ ?_ (Or.inr rfl) hother ⟨rfl,hpre.2⟩ (fun _ _ => Or.inr rfl)
    (fun u hu => update_of_ne hu _ _) fun cv hw => ?_
  · exact fun a _ ha => absurd ha (hnone a)
  · exact ⟨nofun,fun ⟨o,ho⟩ => absurd ho (hnone o)⟩
  · have hw : update c.mem.waiting t (k.map Prod.fst) t = some cv := hw
    rw [update_self] at hw
    obtain ⟨⟨cv',spl⟩,hk,rfl⟩ := Option.map_eq_some_iff.mp hw
    subst hk
    exact ⟨hpre.2,beq_self_eq_true cv'⟩

theorem Law.relPtr {k : Option (Nat × Nat)} {s : Nat} (hpc : c.pc t = .relPtr k s) (hp : Performed c
    t (.goto { c.mem with pointer := none } (.relSplx k s)) c') : Law lock c' := by
  have hpre := hs.pc t
  rw [hpc] at hpre
  refine hs.assign h hc hp hs.one hs.held (Or.inl fun o => ?_) (fun _ _ => rfl) hpre
    (fun u hu => Or.inl ?_) (fun _ _ => rfl) fun cv hw => ?_
  · exact ⟨nofun,fun ho => absurd ho (by rw [hs.not_owner hpre.1]; nofun)⟩
  · exact hs.asleep_cur h hc (by rw [hpc]; rfl) hu
  · have := hs.waiting_cur h hc hw
    rw [hpc] at this
    refine ⟨this.1,?_⟩
    rcases k with _ | ⟨cv',spl⟩
    · cases this.2
    · exact this.2

theorem Law.relWakeup {k : Option (Nat × Nat)} {s : Nat} (hpc : c.pc t = .relWakeup k s) (hp :
    Performed c t (.wakeup lock false (fun _ => c.mem) (.relPtr k s)) c') : Law lock c' := by
  have hpre := hs.pc t
  rw [hpc] at hpre
  have hmem : c'.mem = c.mem := hp.mem
  refine ⟨?_,?_,Or.inr ⟨t,?_⟩,fun u => ?_,fun u hu => ?_,fun a u hx => ?_,
    fun u cv hu => ?_⟩
  · rw [hmem]
    exact hs.one
  · rw [hmem]
    exact hs.held
  · rw [hp.pc,update_self]
    rfl
  · rw [hmem,hp.pc]
    exact PcOk.update (p := .relPtr k s) hs h hc (fun _ _ => rfl) hpre u
  · obtain ⟨hu,hn⟩ := (hp.asleep lock u).mp hu
    exact absurd (Sys.mem_woken_all.mpr hu) hn
  · exact nomatch ((hp.falling a u).mp hx).2
  · rw [hmem] at hu
    obtain ⟨hcv,hx⟩ := hs.waiting u cv hu
    refine ⟨hcv,?_⟩
    rcases hx with hx | hx | hx
    · refine Or.inl ((hp.asleep cv u).mpr ⟨hx,fun hw => hcv ?_⟩)
      exact Option.some.inj (hx.2.symm.trans (Sys.mem_woken_all.mp hw).2)
    · exact absurd hx (h.not_falling hc cv u)
    · rw [hp.pc]
      refine Or.inr (Or.inr (givesUp_update (fun cv' hg => ?_) hx))
      rw [hpc] at hg
      rcases k with _ | ⟨cv'',spl⟩
      · cases hg
      · exact hg

theorem Law.sigWakeup {single : Bool} {cv s : Nat} (hpc : c.pc t = .sigWakeup single cv s) (hp :
    Performed c t (.wakeup cv single (c.mem.signalled cv) (.sigSplx s)) c') : Law lock c' := by
  have hmem : c'.mem = c.mem.signalled cv (c.sys.woken cv single) := hp.mem
  refine ⟨?_,?_,Or.inl fun o => ?_,fun u => ?_,fun u hu => Or.inl ?_,fun a u hx => ?_,
    fun u cv' hu => ?_⟩
  · rw [hmem]
    exact hs.one
  · rw [hmem]
    exact hs.held
  · rw [hmem]
    exact hs.pointer_cur h hc (by rw [hpc]; rfl) o
  · rw [hmem,hp.pc]
    exact PcOk.update (p := .sigSplx s) hs h hc (fun _ _ => rfl) trivial u
  · rw [hmem]
    exact hs.asleep_cur h hc (by rw [hpc]; rfl) ((hp.asleep lock u).mp hu).1
  · exact nomatch ((hp.falling a u).mp hx).2
  · rw [hmem] at hu
    obtain ⟨hnot,hu⟩ := Option.ite_none_left_eq_some.mp hu
    obtain ⟨hcv,hx⟩ := hs.waiting u cv' hu
    refine ⟨hcv,?_⟩
    rcases hx with hx | hx | hx
    · refine Or.inl ((hp.asleep cv' u).mpr ⟨hx,fun hw => hnot ⟨hw,?_⟩⟩)
      have hon : c.sys.sleepaddr u = some cv := by
        simpa [Sys.sleepsOn] using (mem_of_mem_wakes hw).2
      rw [hu,← hx.2,hon]
    · exact absurd hx (h.not_falling hc cv' u)
    · rw [hp.pc]
      refine Or.inr (Or.inr (givesUp_update (fun cv'' hg => ?_) hx))
      rw [hpc] at hg
      cases hg

theorem Law.perform {cmd : Cmd LockPc LockCv}
    (he : exec lock t c.sys.curspl c.mem (c.pc t) = some cmd) (hp : Performed c t cmd c') :
    Law lock c' := by
  have hpre := hs.pc t
  cases hpc : c.pc t with
  | user =>
    rw [hpc] at he
    cases he
  | acqHeld k s =>
    rw [hpc] at he
    cases he
    exact hs.acqHeld h hc hpc hp
  | acqPtr k s =>
    rw [hpc] at he
    cases he
    exact hs.acqPtr h hc hpc hp
  | relHeld k s =>
    rw [hpc] at he
    cases he
    exact hs.relHeld h hc hpc hp
  | relWakeup k s =>
    rw [hpc] at he
    cases he
    exact hs.relWakeup h hc hpc hp
  | relPtr k s =>
    rw [hpc] at he
    cases he
    exact hs.relPtr h hc hpc hp
  | sigWakeup single cv s =>
    rw [hpc] at he
    cases he
    exact hs.sigWakeup h hc hpc hp
  | waitSleep cv s =>
    rw [hpc] at he hpre
    cases he
    refine hs.sleeps h hc hp (by rw [hpc]; rfl) ?_ (fun cv' hg => ?_) trivial
    · rw [hpre.1]
      exact ⟨nofun,fun hx => absurd hx hpre.2⟩
    · rw [hpc] at hg
      exact (beq_iff_eq.mp hg).symm
  | acqTest k s =>
    rw [hpc] at he
    cases he
    by_cases hh : c.mem.held = true
    · rw [if_pos hh] at hp
      refine hs.sleeps h hc hp (by rw [hpc]; rfl) ?_ (fun cv' hg => ?_) trivial
      · exact ⟨fun _ => rfl,fun _ => hh⟩
      · rw [hpc] at hg
        cases hg
    · rw [if_neg hh] at hp
      have hfree : c.mem.held = false := Bool.eq_false_iff.mpr hh
      exact hs.plain h hc hp rfl rfl (fun _ => nofun) (by rw [hpc]; rfl)
        (fun cv hg => by rw [hpc] at hg; cases hg) hfree
  | acqAssert k =>
    rw [hpc] at he
    obtain ⟨-,⟨⟩⟩ := Option.ite_none_left_eq_some.mp he
    exact hs.plain h hc hp rfl rfl (fun _ => nofun) (by rw [hpc]; rfl)
      (fun cv hg => by rw [hpc] at hg; cases hg) trivial
  | waitAssert cv =>
    rw [hpc] at he hpre
    obtain ⟨-,⟨⟩⟩ := Option.ite_none_right_eq_some.mp he
    exact hs.plain h hc hp rfl rfl (fun _ => nofun) (by rw [hpc]; rfl)
      (fun cv hg => by rw [hpc] at hg; cases hg) hpre
  | acqSplx k s =>
    rw [hpc] at he hpre
    cases he
    refine hs.plain h hc hp rfl rfl (fun _ => nofun) (by rw [hpc]; rfl)
      (fun cv hg => by rw [hpc] at hg; cases hg) ?_
    cases k with
    | none => trivial
    | some spl => exact hpre
  | relSplx k s =>
    rw [hpc] at he hpre
    cases he
    refine hs.plain h hc hp rfl rfl (fun _ => nofun) (by rw [hpc]; rfl) (fun cv hg => ?_) ?_
    · rw [hpc] at hg
      rcases k with _ | ⟨cv',spl⟩
      · cases hg
      · exact hg
    · rcases k with _ | ⟨cv',spl⟩
      · trivial
      · exact hpre
  | acqSpl k | acqAwake k s | waitAwake s | waitSplx s | sigSplx s =>
    rw [hpc] at he
    cases he
    exact hs.plain h hc hp rfl rfl (fun _ => nofun) (by rw [hpc]; rfl)
      (fun cv hg => by rw [hpc] at hg; cases hg) trivial
  | relSpl k | waitSpl cv | sigSpl single cv =>
    rw [hpc] at he hpre
    cases he
    exact hs.plain h hc hp rfl rfl (fun _ => nofun) (by rw [hpc]; rfl)
      (fun cv hg => by rw [hpc] at hg; cases hg) hpre

theorem Law.call (hu : c.pc t = .user) (he : entry lock t c.mem p = true) : Law lock (c.jump t p) := by
  have hok : PcOk lock c.mem t p := by
    cases p with
    | relSpl k => cases k <;> first | exact ⟨he,trivial⟩ | cases he
    | waitAssert cv =>
      have he : (c.mem.owns t && cv != lock) = true := he
      rw [Bool.and_eq_true,bne_iff_ne] at he
      exact he
    | sigSpl single cv => exact bne_iff_ne.mp he
    | acqAssert k => trivial
    | _ => cases he
  refine ⟨hs.one,hs.held,Or.inl ?_,fun u => ?_,fun u hx => Or.inl ?_,hs.falling,
    fun u cv hw => ?_⟩
  · exact hs.pointer_cur h hc (by rw [hu]; rfl)
  · exact PcOk.update hs h hc (fun _ _ => rfl) hok u
  · exact hs.asleep_cur h hc (by rw [hu]; rfl) hx
  · obtain ⟨hcv,hx⟩ := hs.waiting u cv hw
    refine ⟨hcv,hx.imp_right (Or.imp_right (givesUp_update fun cv' hg => ?_))⟩
    rw [hu] at hg
    cases hg

end Current

theorem Law.step (h : Leveled (prog lock) level rest c) (he : Effect (prog lock) c c')
    (hs : Law lock c) : Law lock c' := by
  cases he with
  | perform t cmd hc hexec hdone => exact hs.perform h hc hexec hdone
  | call t p hc hu hentry hdone =>
    subst hdone
    exact hs.call h hc hu hentry
  | irq addr m hfire => cases hfire
  | passive hm hpc hasleep hfall =>
    refine ⟨?_,?_,?_,fun u => ?_,fun u hx => ?_,fun a u hx => absurd hx (hfall a u),
      fun u cv hw => ?_⟩
    · rw [hm]
      exact hs.one
    · rw [hm]
      exact hs.held
    · rw [hm,hpc]
      exact hs.pointer
    · rw [hm,hpc]
      exact hs.pc u
    · rw [hm,hpc]
      rcases (hasleep lock u).mp hx with hx | hx
      · exact hs.asleep u hx
      · exact Or.inl ((hs.falling lock u hx).mpr rfl)
    · rw [hm] at hw
      obtain ⟨hcv,hx⟩ := hs.waiting u cv hw
      refine ⟨hcv,?_⟩
      rw [hpc,hasleep]
      rcases hx with hx | hx | hx
      · exact Or.inl (Or.inl hx)
      · exact Or.inl (Or.inr hx)
      · exact Or.inr (Or.inr hx)

theorem Law.start (me lock : Nat) : Law lock (Conf.start (prog lock) me create) where
  one _ _ ha := nomatch ha
  held := ⟨nofun,fun ⟨_,ho⟩ => nomatch ho⟩
  pointer := Or.inl fun _ => ⟨nofun,nofun⟩
  pc _ := trivial
  asleep _ ht := nomatch ht.1
  falling _ _ ht := nomatch ht.1
  waiting _ _ hw := nomatch hw

theorem not_stale (h : Leveled (prog lock) level rest c)
    (hon : c.sys.curspl = 0 ∨ c.sys.curthread = none) (u : Nat) : stale (c.pc u) = false := by
  cases hu : stale (c.pc u) with
  | false => rfl
  | true =>
    have hc := stale_cur h hu
    exfalso
    rcases hon with h0 | hn
    · rcases h.cur u hc with ⟨_,hl⟩ | ⟨_,_,hspl⟩
      · rw [h0] at hl
        cases hp : c.pc u <;> rw [hp] at hu hl <;>
          first | exact inside_ne_zero hl | cases hu
      · rw [h0] at hspl
        cases hspl
    · rw [hc] at hn
      cases hn

theorem sigWakeup_step (h : Leveled (prog lock) level rest c) {single : Bool} {cv s : Nat}
    (hpc : c.pc t = .sigWakeup single cv s) :
    ∃ c', c.step (prog lock) .run = some c' ∧
      c'.sys.runqueue.toList = c.sys.runqueue.toList ++ c.sys.woken cv single ∧
      c'.sys.sleepers = c.sys.asleep cv single := by
  have hlevel : level (c.pc t) ≠ some 0 := by
    rw [hpc]
    exact inside_ne_zero
  have hc := h.critical_cur hlevel (by rw [hpc]; rfl) rfl
  rcases h.cur t hc with ⟨hf,hl⟩ | ⟨_,h0,_⟩
  · rw [hpc] at hl
    have hspl : 0 < c.sys.curspl := by
      rw [(of_inside hl).2]
      decide
    obtain ⟨q,hq,heq⟩ := Sys.wakeup_true hspl h.conserved.queue cv single
    have hexec : exec lock t c.sys.curspl c.mem (c.pc t) =
        some (.wakeup cv single (c.mem.signalled cv) (.sigSplx s)) := by rw [hpc]; rfl
    exact ⟨_,Conf.step_run (h.away_none hc) hc hf hexec (Conf.perform_wakeup heq),
      hq.toList_eq,rfl⟩
  · exact absurd h0 hlevel

end Step

end LockCv

theorem Sys.woken_eq (s : Sys) (addr : Nat) (single : Bool) : s.woken addr single =
    let waiters := s.sleepers.filter fun t => decide (s.sleepaddr t = some addr)
    if single then waiters.take 1 else waiters := by
  cases single with
  | true =>
    simp only [Sys.woken,wakes,if_true,List.take_one,List.head?_filter]
    rfl
  | false => rfl

theorem locks_and_cvs_along {me lock : Nat} {acts : List (Act LockPc)} {c : Conf LockPc LockCv}
    (hrun : Run.exec (Conf.step (LockCv.prog lock))
      (Conf.start (LockCv.prog lock) me LockCv.create) acts = some c) :
    (c.sys.curspl = 0 ∨ c.sys.curthread = none →
      (c.mem.held = true ↔
        ∃ o, c.mem.pointer = some o ∧ ∀ t, c.mem.owns t = true ↔ t = o) ∧
      ∀ t ∈ c.sys.sleepers, c.sys.sleepaddr t = some lock → c.mem.held = true) ∧
    (∀ t cv, c.mem.waiting t = some cv → ∀ o, o ≠ t → c.mem.owns o = true →
      t ∈ c.sys.sleepers ∧ c.sys.sleepaddr t = some cv) ∧
    (∀ t single cv s, c.pc t = .sigWakeup single cv s →
      ∃ c', c.step (LockCv.prog lock) .run = some c' ∧
        let waiters := c.sys.sleepers.filter fun t => decide (c.sys.sleepaddr t = some cv)
        let runnable := if single then waiters.take 1 else waiters
        c'.sys.runqueue.toList = c.sys.runqueue.toList ++ runnable ∧
        ∀ u, u ∈ c'.sys.sleepers ↔ u ∈ c.sys.sleepers ∧ u ∉ runnable) ∧
    ∀ t s, c.pc t = .waitSplx s → c.mem.owns t = true := by
  obtain ⟨h,hs⟩ := Leveled.along (LockCv.lawful lock) (LockCv.Law.start me lock)
    (fun _ _ => LockCv.Law.step) hrun
  refine ⟨fun hon => ⟨?_,fun t ht ha => ?_⟩,fun t cv hw o _ ho => ?_,fun t single cv s hpc => ?_,
    fun t s hpc => ?_⟩
  · have hptr : ∀ o, c.mem.pointer = some o ↔ c.mem.owns o = true := by
      rcases hs.pointer with hok | ⟨u,hu⟩
      · exact hok
      · rw [LockCv.not_stale h hon u] at hu
        cases hu
    constructor
    · intro hh
      obtain ⟨o,ho⟩ := hs.held.mp hh
      exact ⟨o,(hptr o).mpr ho,fun t => ⟨fun ht => hs.one t o ht ho,fun ht => ht ▸ ho⟩⟩
    · rintro ⟨o,hp,_⟩
      exact hs.held.mpr ⟨o,(hptr o).mp hp⟩
  · rcases hs.asleep t ⟨ht,ha⟩ with hh | ⟨u,hu⟩
    · exact hh
    · have hstale : LockCv.stale (c.pc u) = true := by
        cases hp : c.pc u <;> rw [hp] at hu <;> first | rfl | cases hu
      rw [LockCv.not_stale h hon u] at hstale
      cases hstale
  · have hh : c.mem.held = true := hs.held.mpr ⟨o,ho⟩
    obtain ⟨hcv,hx | hx | hx⟩ := hs.waiting t cv hw
    · exact hx
    · exact absurd ((hs.falling cv t hx).mp hh) hcv
    · have hfree := hs.pc t
      exact absurd hh (LockCv.free_of_givesUp hfree hx)
  · obtain ⟨c',hstep,hrq,hsl⟩ := LockCv.sigWakeup_step h hpc
    rw [Sys.woken_eq] at hrq
    refine ⟨c',hstep,hrq,fun u => ?_⟩
    rw [hsl,Sys.asleep,mem_stays_iff h.conserved.sleepers_nodup]
    show _ ∧ u ∉ c.sys.woken cv single ↔ _
    rw [Sys.woken_eq]
  · have := hs.pc t
    rw [hpc] at this
    exact this

def waitThenAcquire : List (Act LockPc) :=
  [.fork 1, .call (.acqAssert none), .run, .run, .run, .run, .run, .run,
    .call (.waitAssert 5), .run, .run, .run, .run, .run, .run, .run, .run, .stash, .switch,
    .call (.acqAssert none), .run, .run, .run, .run, .run, .run]

theorem locks_and_cvs_wait_then_acquire : ∃ c,
    Run.exec (Conf.step (LockCv.prog 7)) (Conf.start (LockCv.prog 7) 0 LockCv.create)
      waitThenAcquire = some c ∧
    c.sys.curspl = 0 ∧ c.mem.held = true ∧ c.mem.pointer = some 1 ∧ c.mem.waiting 0 = some 5 ∧
    c.mem.owns 1 = true ∧ 0 ∈ c.sys.sleepers ∧ c.sys.sleepaddr 0 = some 5 := by
  have hview : (Run.exec (Conf.step (LockCv.prog 7))
      (Conf.start (LockCv.prog 7) 0 LockCv.create) waitThenAcquire).map
      (fun c => (c.sys.curspl, c.mem.held, c.mem.pointer, c.mem.waiting 0, c.mem.owns 1)) =
        some (0, true, some 1, some 5, true) := by
    decide +kernel
  obtain ⟨c,hc,hv⟩ := Option.map_eq_some_iff.mp hview
  simp only [Prod.mk.injEq] at hv
  obtain ⟨hspl,hheld,hptr,hw,ho⟩ := hv
  exact ⟨c,hc,hspl,hheld,hptr,hw,ho,
    (locks_and_cvs_along hc).2.1 0 5 hw 1 (by decide) ho⟩

end OS161.Thread
