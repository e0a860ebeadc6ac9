import OS161.Lib.Run
import OS161.Lib.Tally
import Mathlib.Data.Fintype.Prod

namespace OS161.Stoplight

inductive Direction where
  | n
  | e
  | s
  | w
  deriving DecidableEq, Repr

instance : Fintype Direction := ⟨{.n, .e, .s, .w}, fun d => by cases d <;> decide⟩

inductive Quadrant where
  | nw
  | ne
  | sw
  | se
  deriving DecidableEq, Repr

instance : Fintype Quadrant := ⟨{.nw, .ne, .sw, .se}, fun q => by cases q <;> decide⟩

inductive Msg where
  | approaching
  | region1
  | region2
  | region3
  | leaving
  deriving DecidableEq, Repr

inductive Act where
  | message (msg : Msg) (destdirection : Direction)
  | p (sem : Quadrant)
  | v (sem : Quadrant)
  deriving DecidableEq, Repr

def gostraight : Direction → List Act
  | .n => [.message .approaching .s, .p .nw, .message .region1 .s, .p .sw, .message .region2 .s,
      .v .nw, .message .leaving .s, .v .sw]
  | .e => [.message .approaching .w, .p .ne, .message .region1 .w, .p .nw, .message .region2 .w,
      .v .ne, .message .leaving .w, .v .nw]
  | .s => [.message .approaching .n, .p .se, .message .region1 .n, .p .ne, .message .region2 .n,
      .v .se, .message .leaving .n, .v .ne]
  | .w => [.message .approaching .e, .p .sw, .message .region1 .e, .p .se, .message .region2 .e,
      .v .sw, .message .leaving .e, .v .se]

def turnleft : Direction → List Act
  | .n => [.message .approaching .e, .p .nw, .message .region1 .e, .p .sw, .message .region2 .e,
      .v .nw, .p .se, .message .region3 .e, .v .sw, .message .leaving .e, .v .se]
  | .e => [.message .approaching .s, .p .ne, .message .region1 .s, .p .nw, .message .region2 .s,
      .v .ne, .p .sw, .message .region3 .s, .v .nw, .message .leaving .s, .v .sw]
  | .s => [.message .approaching .w, .p .se, .message .region1 .w, .p .ne, .message .region2 .w,
      .v .se, .p .nw, .message .region3 .w, .v .ne, .message .leaving .w, .v .nw]
  | .w => [.message .approaching .n, .p .sw, .message .region1 .n, .p .se, .message .region2 .n,
      .v .sw, .p .ne, .message .region3 .n, .v .se, .message .leaving .n, .v .ne]

def turnright : Direction → List Act
  | .n => [.message .approaching .w, .p .nw, .message .region1 .w, .message .leaving .w, .v .nw]
  | .e => [.message .approaching .n, .p .ne, .message .region1 .n, .message .leaving .n, .v .ne]
  | .s => [.message .approaching .e, .p .se, .message .region1 .e, .message .leaving .e, .v .se]
  | .w => [.message .approaching .s, .p .sw, .message .region1 .s, .message .leaving .s, .v .sw]

structure Car where
  cardirection : Direction
  cardestination : Direction
  deriving DecidableEq, Repr

instance : Fintype Car := Fintype.ofEquiv (Direction × Direction)
  ⟨fun x => ⟨x.1, x.2⟩, fun c => (c.1, c.2), fun _ => rfl, fun _ => rfl⟩

-- The nested switch of approachintersection at state_enter 0x0002.
def Car.route : Car → List Act
  | ⟨.n, .n⟩ => []
  | ⟨.n, .e⟩ => turnleft .n
  | ⟨.n, .s⟩ => gostraight .n
  | ⟨.n, .w⟩ => turnright .n
  | ⟨.e, .n⟩ => turnright .e
  | ⟨.e, .e⟩ => []
  | ⟨.e, .s⟩ => turnleft .e
  | ⟨.e, .w⟩ => gostraight .e
  | ⟨.s, .n⟩ => gostraight .s
  | ⟨.s, .e⟩ => turnright .s
  | ⟨.s, .s⟩ => []
  | ⟨.s, .w⟩ => turnleft .s
  | ⟨.w, .n⟩ => turnleft .w
  | ⟨.w, .e⟩ => gostraight .w
  | ⟨.w, .s⟩ => turnright .w
  | ⟨.w, .w⟩ => []

inductive Pc where
  -- state_enter 0x0001: before P(sem_carcount), at the test, and before each of the two V
  | approach
  | test
  | admitted
  | refused
  -- state_enter 0x0002: before the k-th action of the route
  | cross (k : Nat)
  -- state_enter 0x0003
  | depart
  | decrement
  | release
  | finished
  deriving DecidableEq, Repr

structure Sys (ι : Type) where
  carcount : Int
  semCarcount : Nat
  sem : Quadrant → Nat
  cars : ι → Pc

section
variable {ι : Type} [DecidableEq ι]

def createcars : Sys ι := ⟨0, 1, fun _ => 1, fun _ => .approach⟩

def Sys.goto (s : Sys ι) (c : ι) (pc : Pc) : Sys ι := { s with cars := Function.update s.cars c pc }

def Sys.crossing (s : Sys ι) (c : ι) (k : Nat) : Option Act → Option (Sys ι)
  | none => some (s.goto c .depart)
  | some (.message _ _) => some (s.goto c (.cross (k + 1)))
  | some (.p q) =>
    if 0 < s.sem q then
      some { s.goto c (.cross (k + 1)) with sem := Function.update s.sem q (s.sem q - 1) }
    else none
  | some (.v q) =>
    some { s.goto c (.cross (k + 1)) with sem := Function.update s.sem q (s.sem q + 1) }

def step (car : ι → Car) (s : Sys ι) (c : ι) : Option (Sys ι) :=
  match s.cars c with
  | .approach =>
    if 0 < s.semCarcount then some { s.goto c .test with semCarcount := s.semCarcount - 1 } else none
  | .test =>
    if s.carcount < 3 then some { s.goto c .admitted with carcount := s.carcount + 1 }
    else some (s.goto c .refused)
  | .admitted => some { s.goto c (.cross 0) with semCarcount := s.semCarcount + 1 }
  | .refused => some { s.goto c .approach with semCarcount := s.semCarcount + 1 }
  | .cross k => s.crossing c k (car c).route[k]?
  | .depart =>
    if 0 < s.semCarcount then some { s.goto c .decrement with semCarcount := s.semCarcount - 1 }
    else none
  | .decrement => some { s.goto c .release with carcount := s.carcount - 1 }
  | .release => some { s.goto c .finished with semCarcount := s.semCarcount + 1 }
  | .finished => none

end

def Pc.done (car : Car) : Pc → List Act
  | .approach | .test | .admitted | .refused => []
  | .cross k => car.route.take k
  | .depart | .decrement | .release | .finished => car.route

def held (done : List Act) (q : Quadrant) : Bool := done.count (.v q) < done.count (.p q)

def Pc.holds (q : Quadrant) (car : Car) (pc : Pc) : Bool := held (pc.done car) q

def Pc.inside : Pc → Bool
  | .admitted | .cross _ | .depart | .decrement => true
  | _ => false

def Pc.counting : Pc → Bool
  | .test | .admitted | .refused | .decrement | .release => true
  | _ => false

def Act.acquires : Act → Option Quadrant
  | .p q => some q
  | _ => none

def regions (car : Car) : List Quadrant := car.route.filterMap Act.acquires

def Act.announces : Act → Option Nat
  | .message .region1 _ => some 0
  | .message .region2 _ => some 1
  | .message .region3 _ => some 2
  | _ => none

def Announced (car : Car) (done : List Act) : Prop :=
  ∀ a ∈ done, ∀ i ∈ a.announces, ∃ q ∈ (regions car)[i]?, held done q = true ∨
    (∃ r ∈ (regions car)[i + 1]?, .p r ∈ done) ∨ ∃ dest, .message .leaving dest ∈ done

instance {car : Car} {done : List Act} : Decidable (Announced car done) := by
  unfold Announced
  infer_instance

def Quadrant.next : Quadrant → Quadrant
  | .nw => .sw
  | .sw => .se
  | .se => .ne
  | .ne => .nw

theorem next_reaches : ∀ q r : Quadrant,
    r = q ∨ r = q.next ∨ r = q.next.next ∨ r = q.next.next.next := by decide

theorem next_inj : ∀ q r : Quadrant, q.next = r.next → q = r := by decide

section
variable {car : Car} {a : Act} {k : Nat} {q r : Quadrant}

theorem route_length : ∀ car : Car, car.route.length ≤ 11 := by decide

theorem route_released : ∀ (car : Car) q, held car.route q = false := by decide

theorem route_waits : ∀ car : Car, ∀ k < 11, ∀ q, car.route[k]? = some (.p q) →
    ∀ r, held (car.route.take k) r → q = r.next := by
  decide +kernel

theorem route_acquires : ∀ car : Car, ∀ k < 11, ∀ q, car.route[k]? = some (.p q) →
    ∀ r, (held (car.route.take (k + 1)) r).toNat =
      (held (car.route.take k) r).toNat + if r = q then 1 else 0 := by
  decide +kernel

theorem route_releases : ∀ car : Car, ∀ k < 11, ∀ q, car.route[k]? = some (.v q) →
    ∀ r, (held (car.route.take k) r).toNat =
      (held (car.route.take (k + 1)) r).toNat + if r = q then 1 else 0 := by
  decide +kernel

theorem route_announced : ∀ car : Car, ∀ done ∈ car.route.inits, Announced car done := by
  decide +kernel

theorem lt_of_route (h : car.route[k]? = some a) : k < 11 :=
  Nat.lt_of_lt_of_le (List.getElem?_eq_some_iff.mp h).1 (route_length car)

theorem holds_start : Pc.holds q car (.cross 0) = false := by simp [Pc.holds,Pc.done,held]

theorem holds_message {msg : Msg} {dest : Direction} (h : car.route[k]? = some (.message msg dest)) :
    Pc.holds q car (.cross (k + 1)) = Pc.holds q car (.cross k) := by
  have hv : (car.route.take (k + 1)).count (.v q) = (car.route.take k).count (.v q) := by
    simp [List.take_add_one,h]
  have hp : (car.route.take (k + 1)).count (.p q) = (car.route.take k).count (.p q) := by
    simp [List.take_add_one,h]
  exact decide_eq_decide.mpr (by simp only [Pc.done,hv,hp])

theorem holds_end (h : car.route[k]? = none) : Pc.holds q car (.cross k) = false := by
  rw [Pc.holds,Pc.done,List.take_of_length_le (List.getElem?_eq_none_iff.mp h)]
  exact route_released car q

end

section
variable {ι : Type} [DecidableEq ι] {car : ι → Car} {s t : Sys ι} {c : ι}

structure Balanced (car : Car) (c : ι) (s t : Sys ι) : Prop where
  cars : t.cars = Function.update s.cars c (t.cars c)
  quadrant : ∀ q, t.sem q + ((t.cars c).holds q car).toNat = s.sem q + ((s.cars c).holds q car).toNat
  counter : t.semCarcount + (t.cars c).counting.toNat = s.semCarcount + (s.cars c).counting.toNat
  carcount : t.carcount + (s.cars c).inside.toNat = s.carcount + (t.cars c).inside.toNat
  limit : (t.cars c).inside = true → (s.cars c).inside = true ∨ s.carcount < 3

theorem update_semaphore {sem : Quadrant → Nat} {q r : Quadrant} (n : Nat) :
    Function.update sem q n r = if r = q then n else sem r := by
  rcases eq_or_ne r q with rfl | hne
  · rw [Function.update_self,if_pos rfl]
  · rw [Function.update_of_ne hne,if_neg hne]

theorem Balanced.of_goto {car : Car} {pc pc' : Pc} {sem : Quadrant → Nat} {n : Nat} {m : Int}
    (hpc : s.cars c = pc)
    (hq : ∀ q, sem q + (pc'.holds q car).toNat = s.sem q + (pc.holds q car).toNat)
    (hn : n + pc'.counting.toNat = s.semCarcount + pc.counting.toNat)
    (hm : m + pc.inside.toNat = s.carcount + pc'.inside.toNat)
    (hl : pc'.inside = true → pc.inside = true ∨ s.carcount < 3) :
    Balanced car c s ⟨m, n, sem, Function.update s.cars c pc'⟩ := by
  subst hpc
  constructor <;> simp only [Function.update_self] <;> assumption

theorem crossing_balanced {k : Nat} (hpc : s.cars c = .cross k)
    (h : s.crossing c k (car c).route[k]? = some t) : Balanced (car c) c s t := by
  cases ha : (car c).route[k]? with
  | none =>
    rw [ha] at h
    cases h
    refine .of_goto hpc (fun q => ?_) rfl rfl (fun _ => .inl rfl)
    rw [holds_end ha,Pc.holds,Pc.done,route_released]
  | some a =>
    rw [ha] at h
    have hk := lt_of_route ha
    cases a with
    | message msg dest =>
      cases h
      exact .of_goto hpc (fun q => by rw [holds_message ha]) rfl rfl (fun _ => .inl rfl)
    | p q =>
      obtain ⟨hpos,⟨⟩⟩ := Option.ite_none_right_eq_some.mp h
      refine .of_goto hpc (fun r => ?_) rfl rfl (fun _ => .inl rfl)
      have hroute := route_acquires (car c) k hk q ha r
      simp only [Pc.holds,Pc.done,update_semaphore]
      rcases eq_or_ne r q with rfl | hne
      · simp only [if_pos] at hroute ⊢
        omega
      · simp only [if_neg hne] at hroute ⊢
        omega
    | v q =>
      cases h
      refine .of_goto hpc (fun r => ?_) rfl rfl (fun _ => .inl rfl)
      have hroute := route_releases (car c) k hk q ha r
      simp only [Pc.holds,Pc.done,update_semaphore]
      rcases eq_or_ne r q with rfl | hne
      · simp only [if_pos] at hroute ⊢
        omega
      · simp only [if_neg hne] at hroute ⊢
        omega

theorem step_balanced (h : step car s c = some t) : Balanced (car c) c s t := by
  unfold step at h
  split at h
  case h_5 k hpc => exact crossing_balanced hpc h
  case h_9 => cases h
  case h_1 hpc | h_6 hpc =>
    split at h
    · cases h
      refine .of_goto hpc (fun _ => rfl) ?_ rfl ?_
      · simp only [Pc.counting,Bool.toNat_true,Bool.toNat_false]
        omega
      · simp [Pc.inside]
    · cases h
  case h_2 hpc =>
    split at h
    · cases h
      exact .of_goto hpc (fun _ => rfl) rfl (by simp [Pc.inside]) (fun _ => .inr ‹_›)
    · cases h
      exact .of_goto hpc (fun _ => rfl) rfl rfl nofun
  case h_3 hpc =>
    cases h
    exact .of_goto hpc (fun q => by rw [holds_start]; rfl) rfl rfl (fun _ => .inl rfl)
  case h_4 hpc | h_8 hpc =>
    cases h
    exact .of_goto hpc (fun _ => rfl) rfl rfl nofun
  case h_7 hpc =>
    cases h
    exact .of_goto hpc (fun _ => rfl) rfl (by simp [Pc.inside]) nofun

theorem crossing_stuck {k : Nat} (hpc : s.cars c = .cross k) (hstuck : step car s c = none) :
    ∃ q, (car c).route[k]? = some (.p q) := by
  simp only [step,hpc] at hstuck
  cases ha : (car c).route[k]? with
  | none => simp [ha,Sys.crossing] at hstuck
  | some a =>
    cases a with
    | p q => exact ⟨q,rfl⟩
    | message | v => simp [ha,Sys.crossing] at hstuck

theorem crosses_of_holds {car : Car} {pc : Pc} {q : Quadrant} (h : pc.holds q car = true) :
    ∃ k, pc = .cross k := by
  cases pc with
  | cross k => exact ⟨k,rfl⟩
  | approach | test | admitted | refused => simp [Pc.holds,Pc.done,held] at h
  | depart | decrement | release | finished => simp [Pc.holds,Pc.done,route_released] at h

end

section Invariant
variable {ι : Type} [Fintype ι] {car : ι → Car} {s t : Sys ι} {c : ι}

open Tally

structure Safe (car : ι → Car) (s : Sys ι) : Prop where
  quadrant : ∀ q, s.sem q + count (fun c => Pc.holds q (car c)) s.cars = 1
  counter : s.semCarcount + count (fun _ => Pc.counting) s.cars = 1
  carcount : s.carcount = count (fun _ => Pc.inside) s.cars
  limit : count (fun _ => Pc.inside) s.cars ≤ 3

theorem Safe.initial (car : ι → Car) : Safe car (createcars : Sys ι) where
  quadrant q := by
    rw [count_eq_zero.mpr fun c => by simp [createcars,Pc.holds,Pc.done,held]]
    rfl
  counter := by
    rw [count_eq_zero.mpr fun c => rfl]
    rfl
  carcount := by
    rw [count_eq_zero.mpr fun c => rfl]
    rfl
  limit := by
    rw [count_eq_zero.mpr fun c => rfl]
    decide

variable [DecidableEq ι]

theorem Safe.balanced (h : Safe car s) (hb : Balanced (car c) c s t) : Safe car t := by
  have hin := count_update (p := fun _ : ι => Pc.inside) (f := s.cars) c (t.cars c)
  have hcs := count_update (p := fun _ : ι => Pc.counting) (f := s.cars) c (t.cars c)
  rw [← hb.cars] at hin hcs
  have hcount := h.carcount
  refine ⟨fun q => ?_,?_,?_,?_⟩
  · have hq := count_update (p := fun c => Pc.holds q (car c)) (f := s.cars) c (t.cars c)
    rw [← hb.cars] at hq
    have := h.quadrant q
    have := hb.quadrant q
    omega
  · have := h.counter
    have := hb.counter
    omega
  · have := hb.carcount
    omega
  · have hl := h.limit
    cases hnew : (t.cars c).inside with
    | false => simp only [hnew,Bool.toNat_false] at hin; omega
    | true =>
      rcases hb.limit hnew with hold | hlt
      · simp only [hnew,hold,Bool.toNat_true] at hin; omega
      · simp only [hnew,Bool.toNat_true] at hin; omega

theorem Safe.run {ls : List ι} (h : Run.exec (step car) createcars ls = some s) : Safe car s :=
  Run.invariant (P := fun _ _ => True) (I := Safe car)
    (fun _ _ _ hs _ ht => hs.balanced (step_balanced ht)) (.initial car)
    (Run.along_of_forall fun _ _ => trivial) h

def Sys.retests (s : Sys ι) (c : ι) : Prop :=
  3 ≤ s.carcount ∧ (s.cars c = .approach ∨ s.cars c = .test ∨ s.cars c = .refused)

def Sys.Advances (car : ι → Car) (s : Sys ι) : Prop :=
  ∃ c, (step car s c).isSome ∧ ¬ s.retests c

theorem Safe.waits (hs : Safe car s) {k : Nat} {q : Quadrant} (hpc : s.cars c = .cross k)
    (hact : (car c).route[k]? = some (.p q)) (hstuck : step car s c = none) :
    ∃ c', Pc.holds q (car c') (s.cars c') = true := by
  have hzero : s.sem q = 0 := by
    simp only [step,hpc,hact,Sys.crossing] at hstuck
    split at hstuck
    · cases hstuck
    · omega
  have := hs.quadrant q
  exact exists_of_count_pos (p := fun c => Pc.holds q (car c)) (f := s.cars) (by omega)

theorem Safe.crossing_moves (hs : Safe car s) {k : Nat} (hpc : s.cars c = .cross k) :
    ∃ c k, s.cars c = .cross k ∧ (step car s c).isSome := by
  by_contra hno
  have hstuck : ∀ c k, s.cars c = .cross k → step car s c = none := fun c k hk =>
    Option.not_isSome_iff_eq_none.mp fun hsome => hno ⟨c,k,hk,hsome⟩
  let P : Quadrant → Prop := fun q => ∃ c, Pc.holds q (car c) (s.cars c) = true
  have honly : ∀ {c q}, Pc.holds q (car c) (s.cars c) = true → ∃ k r,
      s.cars c = .cross k ∧ r = q.next ∧ P r := by
    intro c q hq
    obtain ⟨k,hk⟩ := crosses_of_holds hq
    obtain ⟨r,hr⟩ := crossing_stuck hk (hstuck c k hk)
    rw [hk] at hq
    exact ⟨k,r,hk,route_waits (car c) k (lt_of_route hr) r hr q hq,hs.waits hk hr (hstuck c k hk)⟩
  have hnext : ∀ {q}, P q → P q.next := by
    rintro q ⟨c,hq⟩
    obtain ⟨k,r,-,rfl,hr⟩ := honly hq
    exact hr
  obtain ⟨q,hq⟩ := crossing_stuck hpc (hstuck c k hpc)
  have hstart : P q := hs.waits hpc hq (hstuck c k hpc)
  have hall : ∀ r, P r := fun r => by
    rcases next_reaches q r with rfl | rfl | rfl | rfl
    · exact hstart
    · exact hnext hstart
    · exact hnext (hnext hstart)
    · exact hnext (hnext (hnext hstart))
  choose f hf using hall
  have hinj : Function.Injective f := fun q r hqr => by
    obtain ⟨k,hk⟩ := crosses_of_holds (hf q)
    obtain ⟨w,hw⟩ := crossing_stuck hk (hstuck _ k hk)
    have hone : ∀ {q}, Pc.holds q (car (f r)) (s.cars (f r)) = true → w = q.next := fun {q} hq => by
      rw [← hqr,hk] at hq
      exact route_waits _ k (lt_of_route hw) w hw q hq
    exact next_inj q r ((hone (hqr ▸ hf q)).symm.trans (hone (hf r)))
  have hfour := card_le_count (p := fun _ : ι => Pc.inside) (f := s.cars) hinj fun q => by
    obtain ⟨k,hk⟩ := crosses_of_holds (hf q)
    rw [hk]
    rfl
  have hlim := hs.limit
  have hcard : Fintype.card Quadrant = 4 := rfl
  omega

theorem Safe.advances_of_free (hs : Safe car s) (hfree : 0 < s.semCarcount)
    (hun : s.cars c ≠ .finished) : s.Advances car := by
  have hcount : ∀ c, (s.cars c).counting = false :=
    count_eq_zero.mp (by have := hs.counter; omega)
  by_cases hcross : ∃ c k, s.cars c = .cross k
  · obtain ⟨c,k,hpc⟩ := hcross
    obtain ⟨c',k',hpc',hstep⟩ := hs.crossing_moves hpc
    exact ⟨c',hstep,fun hr => by simp [Sys.retests,hpc'] at hr⟩
  by_cases hdep : ∃ c, s.cars c = .depart
  · obtain ⟨c,hpc⟩ := hdep
    exact ⟨c,by simp [step,hpc,hfree],fun hr => by simp [Sys.retests,hpc] at hr⟩
  have hout : ∀ c, s.cars c = .approach ∨ s.cars c = .finished := by
    intro c
    have hc := hcount c
    cases hpc : s.cars c with
    | approach => exact .inl rfl
    | finished => exact .inr rfl
    | cross k => exact absurd ⟨c,k,hpc⟩ hcross
    | depart => exact absurd ⟨c,hpc⟩ hdep
    | test | admitted | refused | decrement | release => simp [hpc,Pc.counting] at hc
  have hnone : s.carcount = 0 := by
    rw [hs.carcount,count_eq_zero.mpr fun c => by rcases hout c with h | h <;> rw [h] <;> rfl]
    rfl
  have hpc := (hout c).resolve_right hun
  exact ⟨c,by simp [step,hpc,hfree],fun hr => by have := hr.1; omega⟩

structure Orderly (car : ι → Car) (s : Sys ι) : Prop where
  quadrant : ∀ q c c', (s.cars c).holds q (car c) = true → (s.cars c').holds q (car c') = true → c = c'
  limit : count (fun _ => Pc.inside) s.cars ≤ 3
  announced : ∀ c, Announced (car c) ((s.cars c).done (car c))
  moves : (∃ c, s.cars c ≠ .finished) →
    ∃ c, (step car s c).isSome ∧ ¬ (s.cars c = .approach ∧ 3 ≤ s.carcount)
  advances : (∃ c, s.cars c ≠ .finished) →
    ∃ ls t, ls.length ≤ 2 ∧ Run.exec (step car) s ls = some t ∧ t.Advances car

theorem done_announced (car : Car) (pc : Pc) : Announced car (pc.done car) := by
  refine route_announced car _ ((List.mem_inits _ _).mpr ?_)
  cases pc with
  | cross k => exact List.take_prefix _ _
  | approach | test | admitted | refused => exact List.nil_prefix
  | depart | decrement | release | finished => exact List.prefix_rfl

theorem Safe.moves (hs : Safe car s) (hun : s.cars c ≠ .finished) :
    ∃ c, (step car s c).isSome ∧ ¬ (s.cars c = .approach ∧ 3 ≤ s.carcount) := by
  rcases Nat.eq_zero_or_pos s.semCarcount with hzero | hpos
  · have hcs := hs.counter
    obtain ⟨c,hc⟩ := exists_of_count_pos (p := fun _ : ι => Pc.counting) (f := s.cars) (by omega)
    refine ⟨c,?_,fun h => by simp [h.1,Pc.counting] at hc⟩
    cases hpc : s.cars c with
    | test =>
      simp only [step,hpc]
      split <;> rfl
    | admitted | refused | decrement | release => simp [step,hpc]
    | approach | cross | depart | finished => simp [hpc,Pc.counting] at hc
  · obtain ⟨c,hstep,hno⟩ := hs.advances_of_free hpos hun
    exact ⟨c,hstep,fun h => hno ⟨h.2,.inl h.1⟩⟩

theorem Safe.refused_advances (hs : Safe car s) (hpc : s.cars c = .refused) :
    ∃ t, step car s c = some t ∧ t.Advances car := by
  have hstep : step car s c = some { s.goto c .approach with semCarcount := s.semCarcount + 1 } := by
    simp only [step,hpc]
  refine ⟨_,hstep,(hs.balanced (step_balanced hstep)).advances_of_free (c := c) (Nat.succ_pos _) ?_⟩
  simp [Sys.goto]

theorem Safe.advances (hs : Safe car s) (hun : s.cars c ≠ .finished) :
    ∃ ls t, ls.length ≤ 2 ∧ Run.exec (step car) s ls = some t ∧ t.Advances car := by
  by_cases hnow : s.Advances car
  · exact ⟨[],s,Nat.zero_le _,rfl,hnow⟩
  obtain ⟨c,hstep,hno⟩ := hs.moves hun
  have hretest : s.retests c := by
    by_contra hr
    exact hnow ⟨c,hstep,hr⟩
  obtain ⟨hfull,happ | htest | href⟩ := hretest
  · exact absurd ⟨happ,hfull⟩ hno
  · have hstep : step car s c = some (s.goto c .refused) := by
      simp only [step,htest,if_neg (Int.not_lt.mpr hfull)]
    obtain ⟨u,hu,hadv⟩ := (hs.balanced (step_balanced hstep)).refused_advances (c := c)
      (by simp [Sys.goto])
    exact ⟨[c,c],u,Nat.le_refl _,Run.exec_cons.mpr ⟨_,hstep,Run.exec_cons.mpr ⟨u,hu,rfl⟩⟩,hadv⟩
  · obtain ⟨u,hu,hadv⟩ := hs.refused_advances href
    exact ⟨[c],u,Nat.le_succ _,Run.exec_cons.mpr ⟨u,hu,rfl⟩,hadv⟩

theorem intersection_orderly {ls : List ι} (h : Run.exec (step car) createcars ls = some s) :
    Orderly car s := by
  have hs := Safe.run h
  refine ⟨fun q c c' hc hc' => ?_,hs.limit,fun c => done_announced (car c) (s.cars c),?_,?_⟩
  · have := hs.quadrant q
    exact eq_of_count_le_one (p := fun c => Pc.holds q (car c)) (f := s.cars) (by omega) hc hc'
  · rintro ⟨c,hun⟩
    exact hs.moves hun
  · rintro ⟨c,hun⟩
    exact hs.advances hun

end Invariant

def leftTurns : Fin 4 → Car
  | 0 => ⟨.n, .e⟩
  | 1 => ⟨.e, .s⟩
  | 2 => ⟨.s, .w⟩
  | 3 => ⟨.w, .n⟩

theorem intersection_orderly_left_turns :
    ∃ s, Run.exec (step leftTurns) createcars [0, 0, 0, 1, 1, 1, 2, 2, 2, 3, 3, 0, 0, 1, 1, 2, 2] =
        some s ∧ s.cars 3 = .refused ∧ s.sem .nw = 0 ∧ s.sem .ne = 0 ∧ s.sem .se = 0 ∧
      Orderly leftTurns s := by
  have hrun : ∃ s, Run.exec (step leftTurns) createcars
      [0,0,0,1,1,1,2,2,2,3,3,0,0,1,1,2,2] = some s ∧
      s.cars 3 = .refused ∧ s.sem .nw = 0 ∧ s.sem .ne = 0 ∧ s.sem .se = 0 :=
    ⟨_,rfl,rfl,rfl,rfl,rfl⟩
  obtain ⟨s,hrun,hcar,hnw,hne,hse⟩ := hrun
  exact ⟨s,hrun,hcar,hnw,hne,hse,intersection_orderly hrun⟩

end OS161.Stoplight
