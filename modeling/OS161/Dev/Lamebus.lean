import OS161.Kern
import OS161.Lib.Run

namespace OS161.Lamebus

def nslots : Nat := 32

-- The bus as one read of the interrupt-request register finds it. Drivers and handlers change
-- the slots only between two reads.
structure Moment where
  irqs : BitVec 32
  slotsinuse : BitVec 32
  irqfuncs : Nat → Option Nat
  devdata : Nat → Nat

structure Call where
  curspl : Nat
  bus : Nat → Moment

inductive Event where
  | stray
  | undriven (slot read : Nat)
  | unhandled (slot read : Nat)
  | called (irqfunc devdata slot read : Nat)
  deriving DecidableEq, Repr

def Event.isDud : Event → Bool
  | .called .. => false
  | _ => true

def seen (log : List Event) : Nat := log.countP Event.isDud

structure Locals where
  duds : Int
  dudsThisTime : Int
  read : Nat
  log : List Event

def Locals.dud (l : Locals) (e : Event) : Locals :=
  { l with
    duds := (l.duds + 1).bmod (2 ^ 32)
    dudsThisTime := (l.dudsThisTime + 1).bmod (2 ^ 32)
    log := l.log ++ [e] }

def visit (bus : Nat → Moment) (mask : BitVec 32) (slot : Nat) (l : Locals) : Locals :=
  if (bus l.read).irqs &&& mask = 0 then l
  else if (bus l.read).slotsinuse &&& mask = 0 then l.dud (.undriven slot l.read)
  else
    match (bus l.read).irqfuncs slot with
    | none => l.dud (.unhandled slot l.read)
    | some f =>
      { l with
        read := l.read + 1
        log := l.log ++ [.called f ((bus l.read).devdata slot) slot l.read] }

def slots (bus : Nat → Moment) : Nat → BitVec 32 → Nat → Locals → Locals
  | 0, _, _, l => l
  | left + 1, mask, slot, l => slots bus left (mask <<< 1) (slot + 1) (visit bus mask slot l)

def tooMany (duds : Int) : Stop := .panic s!"lamebus: too many ({duds}) dud interrupts"

-- The events of the call, and the static dud count it leaves.
def lamebusInterrupt (c : Call) (duds : Int) : List Event × Kern Int :=
  if c.curspl = 0 then ([], .error (.panic "curspl>0"))
  else if (c.bus 0).irqs = 0 then ([.stray], .ok ((duds + 1).bmod (2 ^ 32)))
  else
    let l := slots c.bus nslots 1#32 0 ⟨duds, 0, 0, []⟩
    let duds := if l.dudsThisTime = 0 ∧ 0 < l.duds then 0 else l.duds
    (l.log, if 10000 < duds then .error (tooMany duds) else .ok duds)

def Moment.pending (m : Moment) (slot : Nat) : Prop := m.irqs &&& 1#32 <<< slot ≠ 0

def Moment.inUse (m : Moment) (slot : Nat) : Prop := m.slotsinuse &&& 1#32 <<< slot ≠ 0

def Event.Sound (bus : Nat → Moment) : Event → Prop
  | .stray => (bus 0).irqs = 0
  | .undriven slot i => (bus i).pending slot ∧ ¬ (bus i).inUse slot
  | .unhandled slot i => (bus i).pending slot ∧ (bus i).irqfuncs slot = none
  | .called f data slot i =>
    (bus i).pending slot ∧ (bus i).inUse slot ∧ (bus i).irqfuncs slot = some f ∧
      (bus i).devdata slot = data

structure Counts (bus : Nat → Moment) (duds : Int) (k : Nat) (l : Locals) : Prop where
  few : seen l.log ≤ k
  count : 0 ≤ duds → duds + k < 2 ^ 31 →
    l.duds = duds + seen l.log ∧ l.dudsThisTime = seen l.log
  sound : ∀ e ∈ l.log, e.Sound bus

section
variable {bus : Nat → Moment} {duds : Int} {k : Nat} {l : Locals}

theorem Counts.dud (h : Counts bus duds k l) {e : Event} (hd : e.isDud = true) (he : e.Sound bus) :
    Counts bus duds (k + 1) (l.dud e) := by
  have hfew := h.few
  have hseen : seen (l.dud e).log = seen l.log + 1 := by simp [seen,Locals.dud,hd]
  refine ⟨by omega,fun h0 h1 => ?_,List.forall_mem_append.mpr ⟨h.sound,by simpa using he⟩⟩
  obtain ⟨hduds,hthis⟩ := h.count h0 (by omega)
  rw [hseen]
  constructor <;> refine (offT_of_lt ?_ ?_).trans ?_ <;> omega

theorem Counts.visit (h : Counts bus duds k l) (slot : Nat) :
    Counts bus duds (k + 1) (visit bus (1#32 <<< slot) slot l) := by
  unfold Lamebus.visit
  split
  · exact ⟨Nat.le_succ_of_le h.few,fun h0 h1 => h.count h0 (by omega),h.sound⟩
  rename_i hpend
  split
  · rename_i huse
    exact h.dud rfl ⟨hpend,fun hin => hin huse⟩
  rename_i huse
  split
  · rename_i hf
    exact h.dud rfl ⟨hpend,hf⟩
  · rename_i f hf
    have hseen : seen (l.log ++ [.called f ((bus l.read).devdata slot) slot l.read]) =
        seen l.log := by simp [seen,Event.isDud]
    refine ⟨?_,fun h0 h1 => ?_,List.forall_mem_append.mpr ⟨h.sound,?_⟩⟩
    · exact hseen.trans_le (Nat.le_succ_of_le h.few)
    · exact hseen ▸ h.count h0 (by omega)
    · exact List.forall_mem_singleton.mpr ⟨hpend,huse,hf,rfl⟩

theorem Counts.slots (h : Counts bus duds k l) (left slot : Nat) :
    Counts bus duds (k + left) (slots bus left (1#32 <<< slot) slot l) := by
  induction left generalizing k slot l with
  | zero => exact h
  | succ left ih =>
    rw [Lamebus.slots,← BitVec.shiftLeft_add,Nat.add_comm left,← Nat.add_assoc]
    exact ih (h.visit slot) (slot + 1)

theorem Counts.all (bus : Nat → Moment) (duds : Int) :
    Counts bus duds nslots (Lamebus.slots bus nslots 1#32 0 ⟨duds, 0, 0, []⟩) := by
  have h : Counts bus duds 0 ⟨duds,0,0,[]⟩ := ⟨le_rfl,fun _ _ => ⟨by simp [seen],rfl⟩,nofun⟩
  exact h.slots nslots 0

end

-- The dud events since the last call that saw none, counted beside the code's own counter.
structure Watch where
  duds : Int
  streak : Nat

def streakAfter (streak : Nat) (log : List Event) : Nat :=
  if seen log = 0 then 0 else streak + seen log

namespace Watch

def step (s : Watch) (c : Call) : Option Watch :=
  (lamebusInterrupt c s.duds).2.toOption.map fun duds =>
    ⟨duds, streakAfter s.streak (lamebusInterrupt c s.duds).1⟩

theorem lamebusInterrupt_sound (c : Call) (duds : Int) :
    ∀ e ∈ (lamebusInterrupt c duds).1, e.Sound c.bus := by
  unfold lamebusInterrupt
  split
  · exact nofun
  split
  · rename_i hirqs
    exact List.forall_mem_singleton.mpr hirqs
  · exact (Counts.all c.bus duds).sound

theorem lamebusInterrupt_streak {n : Nat} (hn : n + nslots < 2 ^ 31) {c : Call} (hspl : c.curspl ≠ 0)
    (hirqs : (c.bus 0).irqs ≠ 0) {n' : Nat} (h : streakAfter n (lamebusInterrupt c n).1 = n') :
    (lamebusInterrupt c n).2 = if 10000 < n' then .error (tooMany n') else .ok n' := by
  obtain ⟨hduds,hthis⟩ := (Counts.all c.bus n).count (by omega) (by omega)
  simp only [lamebusInterrupt,if_neg hspl,if_neg hirqs] at h ⊢
  generalize slots c.bus nslots 1#32 0 ⟨n,0,0,[]⟩ = l at *
  have hleft : (if l.dudsThisTime = 0 ∧ 0 < l.duds then 0 else l.duds) = n' := by
    unfold streakAfter at h
    split at h <;> split <;> omega
  rw [hleft]
  norm_cast

def strays (calls : List Call) : Nat := calls.countP fun c => (c.bus 0).irqs = 0

theorem strays_cons (c : Call) (calls : List Call) :
    strays (c :: calls) = strays [c] + strays calls := by
  simp [strays,List.countP_cons,Nat.add_comm]

def Tracks (n : Nat) (s : Watch) : Prop := s.duds = s.streak ∧ s.streak ≤ 10000 + n

-- Past 10000 the count is only ever raised by a stray interrupt, which does not test it.
theorem Tracks.step {n : Nat} {s s' : Watch} {c : Call} (h : s.Tracks n)
    (hn : 10000 + n + nslots < 2 ^ 31) (hstep : s.step c = some s') :
    s'.Tracks (n + strays [c]) := by
  have hle := h.2
  have hslots : nslots = 32 := rfl
  obtain ⟨duds,hres,rfl⟩ := Option.map_eq_some_iff.mp hstep
  have hok := ok_of_toOption hres
  rw [Tracks,h.1]
  rw [h.1] at hok
  by_cases hspl : c.curspl = 0
  · simp [lamebusInterrupt,hspl] at hok
  by_cases hirqs : (c.bus 0).irqs = 0
  · simp only [lamebusInterrupt,if_neg hspl,if_pos hirqs,Except.ok.injEq] at hok ⊢
    have hone : strays [c] = 1 := by simp [strays,hirqs]
    rw [← hok,hone]
    refine ⟨offT_of_lt (by omega) (by omega),?_⟩
    show s.streak + 1 ≤ _
    omega
  · rw [lamebusInterrupt_streak (by omega) hspl hirqs rfl] at hok
    split at hok
    · cases hok
    · cases hok
      refine ⟨rfl,?_⟩
      dsimp only
      omega

theorem Tracks.along {calls : List Call} {n : Nat} {s s' : Watch} (h : s.Tracks n)
    (hn : 10000 + n + strays calls + nslots < 2 ^ 31) (hrun : Run.exec Watch.step s calls = some s') :
    s'.Tracks (n + strays calls) := by
  induction calls generalizing n s with
  | nil =>
    cases hrun
    exact h
  | cons c calls ih =>
    rw [strays_cons] at hn ⊢
    obtain ⟨s₁,hstep,hrun⟩ := Run.exec_cons.mp hrun
    rw [← Nat.add_assoc]
    exact ih (h.step (by omega) hstep) (by omega) hrun

theorem dud_interrupts_fatal {calls : List Call} {s : Watch}
    (hrun : Run.exec step ⟨0, 0⟩ calls = some s) (c : Call) :
    (strays calls < 2 ^ 31 - 2 ^ 14 → (c.bus 0).irqs ≠ 0 →
      10000 < streakAfter s.streak (lamebusInterrupt c s.duds).1 →
      (lamebusInterrupt c s.duds).2 =
        .error (tooMany (streakAfter s.streak (lamebusInterrupt c s.duds).1))) ∧
    ∀ e ∈ (lamebusInterrupt c s.duds).1, e.Sound c.bus := by
  refine ⟨fun hfew hc hmany => ?_,lamebusInterrupt_sound c s.duds⟩
  have hslots : nslots = 32 := rfl
  have hstart : Tracks 0 ⟨0,0⟩ := ⟨rfl,Nat.zero_le _⟩
  obtain ⟨hduds,hle⟩ := Tracks.along hstart (by omega) hrun
  by_cases hspl : c.curspl = 0
  · simp [lamebusInterrupt,hspl,streakAfter,seen] at hmany
  rw [hduds] at hmany ⊢
  rw [lamebusInterrupt_streak (by omega) hspl hc rfl,if_pos hmany]

theorem exec_replicate {c : Call}
    (hstep : ∀ d : Nat, d < 10000 → step ⟨d, d⟩ c = some ⟨(d + 1 : Nat), d + 1⟩) {n d : Nat}
    (h : n + d = 10000) : Run.exec step ⟨d, d⟩ (List.replicate n c) = some ⟨10000, 10000⟩ := by
  induction n generalizing d with
  | zero =>
    obtain rfl : d = 10000 := by omega
    rfl
  | succ n ih => exact Run.exec_cons.mpr ⟨_,hstep d (by omega),ih (by omega)⟩

def unclaimed : Call := ⟨1, fun _ => ⟨1, 0, fun _ => none, fun _ => 0⟩⟩

theorem unclaimed_log (duds : Int) : (lamebusInterrupt unclaimed duds).1 = [.undriven 0 0] := by
  simp [lamebusInterrupt,unclaimed,nslots,slots,visit,Locals.dud]

theorem dud_interrupts_fatal_unclaimed :
    ∃ s, Run.exec step ⟨0, 0⟩ (List.replicate 10000 unclaimed) = some s ∧
      (lamebusInterrupt unclaimed s.duds).2 = .error (tooMany 10001) := by
  have hlog : ∀ d : Nat, streakAfter d (lamebusInterrupt unclaimed d).1 = d + 1 := fun d => by
    rw [unclaimed_log]
    rfl
  have hrun := @exec_replicate unclaimed (fun d hd => ?_) 10000 0 rfl
  · have hmany := hlog 10000
    have hnone : strays (List.replicate 10000 unclaimed) = 0 :=
      List.countP_eq_zero.mpr fun c hc => by rw [List.eq_of_mem_replicate hc]; decide
    have hend := (dud_interrupts_fatal hrun unclaimed).1 (by rw [hnone]; decide) (by decide)
      (hmany ▸ by decide)
    exact ⟨_,hrun,hend.trans (congrArg (Except.error ∘ tooMany ∘ Nat.cast) hmany)⟩
  · have hres := lamebusInterrupt_streak (n := d) (by unfold nslots; omega) (c := unclaimed)
      (by decide) (by decide) (hlog d)
    rw [if_neg (by omega)] at hres
    simp only [step,hres,hlog]
    rfl

def nothingPending : Call := ⟨1, fun _ => ⟨0, 0, fun _ => none, fun _ => 0⟩⟩

theorem stray_interrupts_not_fatal :
    ∃ s, Run.exec step ⟨0, 0⟩ (List.replicate 10000 nothingPending) = some s ∧
      streakAfter s.streak (lamebusInterrupt nothingPending s.duds).1 = 10001 ∧
      (lamebusInterrupt nothingPending s.duds).2 = .ok 10001 := by
  refine ⟨_,exec_replicate (fun d hd => ?_) rfl,by decide,by decide⟩
  have hduds : ((d : Int) + 1).bmod (2 ^ 32) = (d + 1 : Nat) := offT_of_lt (by omega) (by omega)
  exact congrArg (fun duds => some (Watch.mk duds (d + 1))) hduds

end Watch

end OS161.Lamebus
