import OS161.Thread.Interleave

namespace OS161.Thread

structure Sem where
  count : Int
  completedV : Nat
  completedP : Nat
  deriving DecidableEq, Repr

inductive SemPc where
  | user
  | pSpl
  | pTest (spl : Nat)
  | pAwake (spl : Nat)
  | pDown (spl : Nat)
  | pSplx (spl : Nat)
  | vSpl
  | vUp (spl : Nat)
  | vWakeup (spl : Nat)
  | vSplx (spl : Nat)
  deriving DecidableEq, Repr

namespace Sem

def create (initialCount : Nat) : Sem := ⟨initialCount, 0, 0⟩

def down (m : Sem) : Option Sem :=
  if 0 < m.count then
    some { m with count := m.count - 1, completedP := m.completedP + 1 }
  else none

def up (m : Sem) : Option Sem :=
  let count := (m.count + 1).bmod (2 ^ 32)
  if 0 < count then some { m with count := count, completedV := m.completedV + 1 } else none

def exec (sem spl : Nat) (m : Sem) : SemPc → Option (Cmd SemPc Sem)
  | .user => none
  | .pSpl => some (.splx splHigh (.pTest spl))
  | .pTest s => some (if m.count = 0 then .sleep sem (.pAwake s) else .goto m (.pDown s))
  | .pAwake s => some (.awake (.pTest s))
  | .pDown s => m.down.map fun m' => .goto m' (.pSplx s)
  | .pSplx s => some (.splx s .user)
  | .vSpl => some (.splx splHigh (.vUp spl))
  | .vUp s => m.up.map fun m' => .goto m' (.vWakeup s)
  | .vWakeup s => some (.wakeup sem false (fun _ => m) (.vSplx s))
  | .vSplx s => some (.splx s .user)

-- V may also be called by an interrupt handler.
def prog (sem : Nat) : Prog SemPc Sem where
  user := .user
  entry _ _ p := p == .pSpl || p == .vSpl
  exec _ := exec sem
  irq m := m.up.map fun m' => (sem, m')

def level : SemPc → Option Nat
  | .user | .pSpl | .vSpl => some 0
  | .pTest s | .pAwake s | .pDown s | .pSplx s | .vUp s | .vWakeup s | .vSplx s =>
    if s = 0 then some splHigh else none

def rest : SemPc → Bool
  | .pAwake _ => true
  | _ => false

theorem up_eq {m m' : Sem} (h : m.up = some m') (h0 : 0 ≤ m.count) (h1 : m.count < 2 ^ 31) :
    m'.count = m.count + 1 ∧ m.count + 1 < 2 ^ 31 ∧ m'.completedV = m.completedV + 1 ∧
      m'.completedP = m.completedP := by
  unfold up at h
  obtain ⟨hpos,⟨⟩⟩ := Option.ite_none_right_eq_some.mp h
  rw [Int.bmod_def] at hpos
  have hlt : m.count + 1 < 2 ^ 31 := by
    by_contra hge
    have : m.count + 1 = 2 ^ 31 := by omega
    rw [this] at hpos
    exact absurd hpos (by decide)
  refine ⟨?_,hlt,rfl,rfl⟩
  show (m.count + 1).bmod (2 ^ 32) = m.count + 1
  rw [Int.bmod_def]
  split <;> omega

theorem down_eq {m m' : Sem} (h : m.down = some m') : 0 < m.count ∧
    m'.count = m.count - 1 ∧ m'.completedV = m.completedV ∧
      m'.completedP = m.completedP + 1 := by
  unfold down at h
  split at h
  · rename_i hpos
    cases h
    exact ⟨hpos,rfl,rfl,rfl⟩
  · cases h

theorem level_high {s spl : Nat} (h : (if s = 0 then some splHigh else none) = some spl) :
    s = 0 ∧ spl = splHigh := by
  split at h
  · rename_i hs
    exact ⟨hs,(Option.some.inj h).symm⟩
  · cases h

theorem lawful (sem : Nat) : Lawful (prog sem) level rest where
  user := rfl
  entry _ _ p hp := by
    simp only [prog,Bool.or_eq_true,beq_iff_eq] at hp
    rcases hp with rfl | rfl <;> rfl
  exec t spl m p cmd hl he := by
    cases p with
    | user => cases he
    | pSpl | vSpl =>
      cases hl
      cases he
      rfl
    | pTest s =>
      obtain ⟨rfl,rfl⟩ := level_high hl
      cases he
      split
      · exact ⟨rfl,rfl,rfl⟩
      · rfl
    | pDown s | vUp s =>
      obtain ⟨rfl,rfl⟩ := level_high hl
      obtain ⟨m',_,rfl⟩ := Option.map_eq_some_iff.mp he
      rfl
    | pAwake s | pSplx s | vWakeup s | vSplx s =>
      obtain ⟨rfl,rfl⟩ := level_high hl
      cases he
      rfl

structure Law (sem initial : Nat) (c : Conf SemPc Sem) : Prop where
  total : c.mem.count = initial + c.mem.completedV - c.mem.completedP
  nonneg : 0 ≤ c.mem.count
  small : c.mem.count < 2 ^ 31
  asleep : ∀ t, c.asleep sem t → c.mem.count = 0 ∨ ∃ u s, c.pc u = .vWakeup s
  falling : ∀ t, c.falling sem t → c.mem.count = 0

section Step
variable {sem initial t : Nat} {c c' : Conf SemPc Sem}

theorem wakeup_cur (h : Leveled (prog sem) level rest c) {u s : Nat}
    (hu : c.pc u = .vWakeup s) : c.sys.curthread = some u := by
  refine h.critical_cur ?_ (by rw [hu]; rfl) rfl
  rw [hu,level]
  split <;> nofun

theorem Law.count_eq_zero (hs : Law sem initial c) (h : Leveled (prog sem) level rest c)
    (hc : c.sys.curthread = some t) (hp : ∀ s, c.pc t ≠ .vWakeup s) {u : Nat}
    (hu : c.asleep sem u) : c.mem.count = 0 := by
  rcases hs.asleep u hu with h0 | ⟨v,s,hv⟩
  · exact h0
  · have := wakeup_cur h hv
    rw [hc] at this
    obtain rfl := Option.some.inj this
    exact absurd hv (hp s)

theorem Law.same_mem (hs : Law sem initial c) (hm : c'.mem = c.mem)
    (hasleep : ∀ u, c'.asleep sem u → c.mem.count = 0)
    (hfall : ∀ u, c'.falling sem u → c.mem.count = 0) : Law sem initial c' where
  total := by rw [hm,hs.total]
  nonneg := by
    rw [hm]
    exact hs.nonneg
  small := by
    rw [hm]
    exact hs.small
  asleep u hu := by
    rw [hm]
    exact Or.inl (hasleep u hu)
  falling u hu := by
    rw [hm]
    exact hfall u hu

theorem Law.perform (hs : Law sem initial c) (h : Leveled (prog sem) level rest c)
    (hc : c.sys.curthread = some t) {cmd : Cmd SemPc Sem}
    (he : exec sem c.sys.curspl c.mem (c.pc t) = some cmd) (hp : Performed c t cmd c') :
    Law sem initial c' := by
  have hback : ∀ u, c'.asleep sem u → c.asleep sem u := fun u hu => ((hp.asleep sem u).mp hu).1
  cases hpc : c.pc t with
  | user =>
    rw [hpc] at he
    cases he
  | pTest s =>
    rw [hpc] at he
    cases he
    refine hs.same_mem (hp.mem.trans ?_) (fun u hu => ?_) fun u hu => ?_
    · split <;> rfl
    · exact hs.count_eq_zero h hc (by rw [hpc]; nofun) (hback u hu)
    · by_contra hne
      have := ((hp.falling sem u).mp hu).2
      rw [if_neg hne] at this
      cases this
  | pDown s =>
    rw [hpc] at he
    obtain ⟨m',hd,rfl⟩ := Option.map_eq_some_iff.mp he
    obtain ⟨hpos,hcount,hv,hp'⟩ := down_eq hd
    have hm : c'.mem = m' := hp.mem
    have htotal := hs.total
    have hsmall := hs.small
    refine ⟨?_,?_,?_,fun u hu => ?_,fun u hu => ?_⟩
    · rw [hm,hcount,hv,hp',htotal]
      omega
    · rw [hm,hcount]
      omega
    · rw [hm,hcount]
      omega
    · have := hs.count_eq_zero h hc (by rw [hpc]; nofun) (hback u hu)
      omega
    · exact nomatch ((hp.falling sem u).mp hu).2
  | vUp s =>
    rw [hpc] at he
    obtain ⟨m',hd,rfl⟩ := Option.map_eq_some_iff.mp he
    obtain ⟨hcount,hlt,hv,hp'⟩ := up_eq hd hs.nonneg hs.small
    have hm : c'.mem = m' := hp.mem
    have htotal := hs.total
    have hnonneg := hs.nonneg
    refine ⟨?_,?_,?_,fun u hu => Or.inr ⟨t,s,?_⟩,fun u hu => ?_⟩
    · rw [hm,hcount,hv,hp',htotal]
      omega
    · rw [hm,hcount]
      omega
    · rw [hm,hcount]
      exact hlt
    · rw [hp.pc]
      exact Function.update_self _ _ _
    · exact nomatch ((hp.falling sem u).mp hu).2
  | vWakeup s =>
    rw [hpc] at he
    cases he
    refine hs.same_mem hp.mem (fun u hu => ?_) fun u hu => ?_
    · obtain ⟨hu,hn⟩ := (hp.asleep sem u).mp hu
      exact absurd (Sys.mem_woken_all.mpr hu) hn
    · exact nomatch ((hp.falling sem u).mp hu).2
  | pSpl | vSpl | pAwake s | pSplx s | vSplx s =>
    rw [hpc] at he
    cases he
    refine hs.same_mem hp.mem (fun u hu => ?_) fun u hu => ?_
    · exact hs.count_eq_zero h hc (by rw [hpc]; nofun) (hback u hu)
    · exact nomatch ((hp.falling sem u).mp hu).2

theorem Law.step (h : Leveled (prog sem) level rest c) (he : Effect (prog sem) c c')
    (hs : Law sem initial c) : Law sem initial c' := by
  cases he with
  | perform t cmd hc hexec hdone => exact hs.perform h hc hexec hdone
  | call t p hc hu _ hdone =>
    subst hdone
    refine hs.same_mem rfl (fun u hx => ?_) fun u hx => hs.falling u hx
    refine hs.count_eq_zero h hc ?_ hx
    rw [show c.pc t = .user from hu]
    nofun
  | irq addr m hfire hon hm hpc hasleep hfall =>
    obtain ⟨m',hup,heq⟩ := Option.map_eq_some_iff.mp hfire
    cases heq
    obtain ⟨hcount,hlt,hv,hp'⟩ := up_eq hup hs.nonneg hs.small
    have htotal := hs.total
    have hnonneg := hs.nonneg
    refine ⟨?_,?_,?_,fun u hu => ?_,fun u hu => absurd hu (hfall sem u)⟩
    · rw [hm,hcount,hv,hp',htotal]
      omega
    · rw [hm,hcount]
      omega
    · rw [hm,hcount]
      exact hlt
    · exact absurd rfl ((hasleep sem u).mp hu).2
  | passive hm hpc hasleep hfall =>
    refine ⟨?_,?_,?_,fun u hu => ?_,fun u hu => absurd hu (hfall sem u)⟩
    · rw [hm,hs.total]
    · rw [hm]
      exact hs.nonneg
    · rw [hm]
      exact hs.small
    · rw [hm,hpc]
      rcases (hasleep sem u).mp hu with hx | hx
      · exact hs.asleep u hx
      · exact Or.inl (hs.falling u hx)

theorem Law.start (me sem : Nat) {initial : Nat} (hi : initial < 2 ^ 31) :
    Law sem initial (Conf.start (prog sem) me (create initial)) where
  total := by
    show (initial : Int) = initial + (0 : Nat) - (0 : Nat)
    omega
  nonneg := Int.natCast_nonneg initial
  small := by
    show (initial : Int) < 2 ^ 31
    omega
  asleep _ ht := nomatch ht.1
  falling _ ht := nomatch ht.1

end Step

end Sem

theorem semaphore_law_along {me sem initial : Nat} {acts : List (Act SemPc)}
    {c : Conf SemPc Sem} (hinitial : initial < 2 ^ 31)
    (hrun : Run.exec (Conf.step (Sem.prog sem))
      (Conf.start (Sem.prog sem) me (Sem.create initial)) acts = some c) :
    c.mem.count = initial + c.mem.completedV - c.mem.completedP ∧ 0 ≤ c.mem.count ∧
    (c.sys.curspl = 0 ∨ c.sys.curthread = none →
      ∀ t ∈ c.sys.sleepers, c.sys.sleepaddr t = some sem → c.mem.count = 0) := by
  obtain ⟨h,hs⟩ := Leveled.along (Sem.lawful sem) (Sem.Law.start me sem hinitial)
    (fun _ _ => Sem.Law.step) hrun
  refine ⟨hs.total,hs.nonneg,fun hon t ht ha => ?_⟩
  rcases hs.asleep t ⟨ht,ha⟩ with h0 | ⟨u,s,hu⟩
  · exact h0
  · have hc := Sem.wakeup_cur h hu
    exfalso
    rcases hon with h0 | hn
    · rcases h.cur u hc with ⟨_,hl⟩ | ⟨_,_,hspl⟩
      · rw [hu,h0] at hl
        cases (Sem.level_high hl).2
      · rw [h0] at hspl
        cases hspl
    · rw [hc] at hn
      cases hn

def bargingP : List (Act SemPc) :=
  [.fork 1, .call .pSpl, .run, .run, .stash, .switch, .tick, .stash, .switch, .run,
    .call .vSpl, .run, .run, .run, .run, .call .pSpl, .run, .run, .run, .run, .tick, .stash,
    .switch, .run, .run, .stash]

theorem semaphore_law_barging : ∃ c,
    Run.exec (Conf.step (Sem.prog 7)) (Conf.start (Sem.prog 7) 0 (Sem.create 0)) bargingP =
      some c ∧ c.sys.sleepers = [0] ∧ c.sys.sleepaddr 0 = some 7 ∧ c.sys.curthread = none ∧
    c.mem.completedV = 1 ∧ c.mem.completedP = 1 ∧ c.mem.count = 0 := by
  have hview : (Run.exec (Conf.step (Sem.prog 7)) (Conf.start (Sem.prog 7) 0 (Sem.create 0))
      bargingP).map (fun c => (c.sys.sleepers, c.sys.sleepaddr 0, c.sys.curthread,
        c.mem.completedV, c.mem.completedP)) = some ([0], some 7, none, 1, 1) := by
    decide +kernel
  obtain ⟨c,hc,hv⟩ := Option.map_eq_some_iff.mp hview
  simp only [Prod.mk.injEq] at hv
  obtain ⟨hsl,ha,hcur,hvs,hps⟩ := hv
  refine ⟨c,hc,hsl,ha,hcur,hvs,hps,?_⟩
  exact (semaphore_law_along (by decide) hc).2.2 (Or.inr hcur) 0 (by rw [hsl]; simp) ha

end OS161.Thread
