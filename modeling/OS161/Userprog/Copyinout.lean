import OS161.Userprog.LoadElf

namespace OS161.Copyinout

open Elf (copycheck)

-- Every page is accessible here: setjmp returns once, with 0.
def copyin (user : Mem) (usersrc : Nat) (dest : Mem) (len : Nat) : Option Errno × Mem :=
  match copycheck usersrc len with
  | (some e, _) => (some e, dest)
  | (none, stoplen) =>
    if stoplen ≠ len then (some .efault, dest) else (none, memmove dest 0 user usersrc len)

def copyout (src user : Mem) (userdest len : Nat) : Option Errno × Mem :=
  match copycheck userdest len with
  | (some e, _) => (some e, user)
  | (none, stoplen) =>
    if stoplen ≠ len then (some .efault, user) else (none, memmove user userdest src 0 len)

-- `loads` and `stores` are the addresses touched, in order.
structure Copied where
  result : Option Errno
  dest : Mem
  gotlen : Option Nat
  loads : List Nat
  stores : List Nat

def address (base i : Nat) : Nat := u32 ((base : Int) + i)

section
variable (d : Nat) (src : Mem) (s maxlen stoplen : Nat)

def copystrEnd (c : Copied) : Copied :=
  { c with result := if stoplen < maxlen then some .efault else some .enametoolong }

def copystrByte (i : Nat) (c : Copied) : Copied :=
  { c with
    dest := Function.update c.dest (address d i) (src (address s i))
    loads := c.loads ++ [address s i]
    stores := c.stores ++ [address d i] }

-- The first argument is `maxlen - i`, so the loop test fails when it reaches 0.
def copystrLoop : Nat → Nat → Copied → Copied
  | 0, _, c => copystrEnd maxlen stoplen c
  | n + 1, i, c =>
    if i < maxlen ∧ i < stoplen then
      let c := copystrByte d src s i c
      if src (address s i) = 0 then { c with result := none, gotlen := c.gotlen.map fun _ => i + 1 }
      else copystrLoop n (i + 1) c
    else copystrEnd maxlen stoplen c

def copystr (dest : Mem) (gotlen : Option Nat) : Copied :=
  copystrLoop d src s maxlen stoplen maxlen 0 ⟨none, dest, gotlen, [], []⟩

end

def refused (e : Errno) (dest : Mem) (gotlen : Option Nat) : Copied := ⟨some e, dest, gotlen, [], []⟩

-- `actual` is `none` for a null pointer.
def copyinstr (user : Mem) (usersrc : Nat) (dest : Mem) (len : Nat) (actual : Option Nat) : Copied :=
  match copycheck usersrc len with
  | (some e, _) => refused e dest actual
  | (none, stoplen) => copystr 0 user usersrc len stoplen dest actual

def copyoutstr (src user : Mem) (userdest len : Nat) (actual : Option Nat) : Copied :=
  match copycheck userdest len with
  | (some e, _) => refused e user actual
  | (none, stoplen) => copystr userdest src 0 len stoplen user actual

def Within (p len : Nat) : Prop := p < usertop ∧ p + len ≤ usertop

def Overlaps (p len : Nat) : Prop := p < usertop ∧ usertop < p + len ∧ p + len ≤ 2 ^ 32

section
variable {p len : Nat}

theorem usertop_eq : usertop = 2 ^ 31 := rfl

theorem copycheck_whole (hlen : len ≠ 0) (h : Within p len) : copycheck p len = (none, len) := by
  obtain ⟨hp,hend⟩ := h
  have htop : u32 ((p : Int) + len - 1) = p + len - 1 := by
    rw [usertop_eq] at hend
    unfold u32
    omega
  unfold copycheck
  rw [htop,if_neg (by omega),if_neg (by omega),if_neg (by omega)]

theorem copycheck_cut (h : Overlaps p len) : copycheck p len = (none, usertop - p) := by
  obtain ⟨hp,hpast,hend⟩ := h
  have htop : u32 ((p : Int) + len - 1) = p + len - 1 := by
    unfold u32
    omega
  unfold copycheck
  rw [htop,if_neg (by omega),if_neg (by omega),if_pos (by omega)]

theorem copycheck_fault (hlen : len < 2 ^ 32) (hp : p < 2 ^ 32) (hw : ¬ Within p len)
    (ho : ¬ Overlaps p len) : copycheck p len = (some .efault, len) := by
  unfold copycheck
  by_cases hkern : usertop ≤ p
  · by_cases htop : u32 ((p : Int) + len - 1) < p
    · rw [if_pos htop]
    · rw [if_neg htop,if_pos hkern]
  · have hwrap : 2 ^ 32 < p + len := by
      unfold Within at hw
      unfold Overlaps at ho
      omega
    have htop : u32 ((p : Int) + len - 1) < p := by
      unfold u32
      omega
    rw [if_pos htop]

theorem copycheck_empty (hp : p < usertop) (h0 : p ≠ 0) : copycheck p 0 = (some .efault, 0) := by
  rw [usertop_eq] at hp
  have htop : u32 ((p : Int) + (0 : Nat) - 1) = p - 1 := by
    unfold u32
    omega
  unfold copycheck
  rw [htop,if_pos (by omega)]

theorem copycheck_null : copycheck 0 0 = (none, usertop) := by
  decide +kernel

theorem Overlaps.not_within (h : Overlaps p len) : ¬ Within p len :=
  fun hw => absurd hw.2 (Nat.not_le.mpr h.2.1)

theorem Overlaps.short (h : Overlaps p len) : usertop - p ≠ len := by
  obtain ⟨hp,hpast,-⟩ := h
  omega

end

structure Documented (p len : Nat) : Prop where
  whole : copycheck p len = (none, len) ↔ Within p len
  cut : copycheck p len = (none, usertop - p) ∧ usertop - p ≠ len ↔ Overlaps p len
  fault : (copycheck p len).1 = some .efault ↔ ¬ Within p len ∧ ¬ Overlaps p len
  copyin : ∀ user dest, (copyin user p dest len).1 = none ↔ Within p len
  copyout : ∀ src user, (copyout src user p len).1 = none ↔ Within p len

section
variable {p len : Nat}

theorem copyin_result (user dest : Mem) : (copyin user p dest len).1 = Elf.copyout p len := by
  unfold copyin Elf.copyout
  obtain ⟨_ | e,stoplen⟩ := copycheck p len
  · dsimp only
    split <;> rfl
  · rfl

theorem copyout_result (src user : Mem) : (copyout src user p len).1 = Elf.copyout p len := by
  unfold copyout Elf.copyout
  obtain ⟨_ | e,stoplen⟩ := copycheck p len
  · dsimp only
    split <;> rfl
  · rfl

theorem range_accepted_iff : Elf.copyout p len = none ↔ copycheck p len = (none, len) := by
  unfold Elf.copyout
  obtain ⟨_ | e,stoplen⟩ := copycheck p len <;> simp

theorem documented_of_check (whole : copycheck p len = (none, len) ↔ Within p len)
    (cut : copycheck p len = (none, usertop - p) ∧ usertop - p ≠ len ↔ Overlaps p len)
    (fault : (copycheck p len).1 = some .efault ↔ ¬ Within p len ∧ ¬ Overlaps p len) :
    Documented p len := by
  refine ⟨whole,cut,fault,fun user dest => ?_,fun src user => ?_⟩
  · rw [copyin_result,range_accepted_iff,whole]
  · rw [copyout_result,range_accepted_iff,whole]

theorem documented_of_ne_zero (hp : p < 2 ^ 32) (hlen : len < 2 ^ 32) (h : len ≠ 0) :
    Documented p len := by
  by_cases hw : Within p len
  · have ho : ¬ Overlaps p len := fun ho => ho.not_within hw
    have hc := copycheck_whole h hw
    apply documented_of_check <;> simp [hc,hw,ho,eq_comm]
  · by_cases ho : Overlaps p len
    · have hc := copycheck_cut ho
      apply documented_of_check <;> simp [hc,hw,ho,ho.short]
    · have hc := copycheck_fault hlen hp hw ho
      apply documented_of_check <;> simp [hc,hw,ho]

theorem documented_of_kernel (hp : p < 2 ^ 32) (hlen : len < 2 ^ 32) (h : usertop ≤ p) :
    Documented p len := by
  have hw : ¬ Within p len := fun hw => absurd hw.1 (Nat.not_lt.mpr h)
  have ho : ¬ Overlaps p len := fun ho => absurd ho.1 (Nat.not_lt.mpr h)
  have hc := copycheck_fault hlen hp hw ho
  apply documented_of_check <;> simp [hc,hw,ho]

theorem not_documented_empty (h : p < usertop) : ¬ Documented p 0 := by
  intro hdoc
  have hc := hdoc.whole.mpr ⟨h,Nat.le_of_lt h⟩
  by_cases h0 : p = 0
  · rw [h0,copycheck_null] at hc
    simp [usertop_eq] at hc
  · rw [copycheck_empty h h0] at hc
    simp at hc

end

theorem copycheck_documented_iff {p len : Nat} (hp : p < 2 ^ 32) (hlen : len < 2 ^ 32) :
    Documented p len ↔ len ≠ 0 ∨ usertop ≤ p := by
  constructor
  · intro h
    by_contra hn
    rw [not_or,not_not,Nat.not_le] at hn
    obtain ⟨rfl,huser⟩ := hn
    exact not_documented_empty huser h
  · rintro (h | h)
    · exact documented_of_ne_zero hp hlen h
    · exact documented_of_kernel hp hlen h

theorem copycheck_documented_page : Documented 0x400000 4096 :=
  (copycheck_documented_iff (by decide) (by decide)).mpr (.inl (by decide))

theorem copycheck_refuses_empty_range :
    Within 0x400000 0 ∧ copycheck 0x400000 0 = (some .efault, 0) ∧
      ∀ user dest, (copyin user 0x400000 dest 0).1 = some .efault := by
  have hc : copycheck 0x400000 0 = (some .efault, 0) := copycheck_empty (by decide) (by decide)
  refine ⟨⟨by decide,by decide⟩,hc,fun user dest => ?_⟩
  simp [copyin,hc]

section Strings
variable {src dest : Mem} {s d p len maxlen stoplen i n k : Nat} {gotlen : Option Nat} {c : Copied}

structure Ran (src : Mem) (s : Nat) (dest : Mem) (d n : Nat) (c : Copied) : Prop where
  dest : c.dest = memmove dest d src s n
  loads : c.loads = List.range' s n
  stores : c.stores = List.range' d n

theorem Ran.zero (src dest : Mem) (s d : Nat) (gotlen : Option Nat) (r : Option Errno) :
    Ran src s dest d 0 ⟨r, dest, gotlen, [], []⟩ :=
  ⟨(memmove_zero dest src d s).symm,rfl,rfl⟩

theorem address_eq (h : s + i < 2 ^ 32) : address s i = s + i := by
  unfold address
  rw [← Int.natCast_add,u32_of_nat h]

theorem update_memmove (dest src : Mem) (d s n : Nat) :
    Function.update (memmove dest d src s n) (d + n) (src (s + n)) =
      memmove dest d src s (n + 1) := by
  funext x
  unfold memmove
  rcases Nat.lt_trichotomy x (d + n) with hlt | rfl | hgt
  · rw [Function.update_of_ne (Nat.ne_of_lt hlt)]
    have hiff : (d ≤ x ∧ x < d + n) ↔ (d ≤ x ∧ x < d + (n + 1)) := by omega
    simp only [hiff]
  · rw [Function.update_self,if_pos (by omega),Nat.add_sub_cancel_left]
  · rw [Function.update_of_ne (Nat.ne_of_gt hgt),if_neg (by omega),if_neg (by omega)]

theorem Ran.byte (h : Ran src s dest d i c) (hs : s + i < 2 ^ 32) (hd : d + i < 2 ^ 32) :
    Ran src s dest d (i + 1) (copystrByte d src s i c) := by
  unfold copystrByte
  rw [address_eq hs,address_eq hd]
  refine ⟨?_,?_,?_⟩
  · rw [h.dest,update_memmove]
  · rw [h.loads,List.range'_1_concat]
  · rw [h.stores,List.range'_1_concat]

def Terminated (src : Mem) (s k : Nat) : Prop := src (s + k) = 0 ∧ ∀ j < k, src (s + j) ≠ 0

theorem Terminated.unique {k' : Nat} (h : Terminated src s k) (h' : Terminated src s k') :
    k = k' := by
  rcases Nat.lt_trichotomy k k' with hlt | heq | hgt
  · exact absurd h.1 (h'.2 k hlt)
  · exact heq
  · exact absurd h'.1 (h.2 k' hgt)

inductive Outcome (src : Mem) (s : Nat) (dest : Mem) (d maxlen stoplen : Nat) (gotlen : Option Nat)
    (c : Copied) : Prop where
  | found (k : Nat) (hk : k < min maxlen stoplen) (hz : Terminated src s k)
      (hres : c.result = none) (hgot : c.gotlen = gotlen.map fun _ => k + 1)
      (hran : Ran src s dest d (k + 1) c)
  | ended (hnz : ∀ j < min maxlen stoplen, src (s + j) ≠ 0)
      (hres : c.result = if stoplen < maxlen then some .efault else some .enametoolong)
      (hgot : c.gotlen = gotlen) (hran : Ran src s dest d (min maxlen stoplen) c)

theorem outcome_end (hi : i = min maxlen stoplen) (hnz : ∀ j < i, src (s + j) ≠ 0)
    (hgot : c.gotlen = gotlen) (h : Ran src s dest d i c) :
    Outcome src s dest d maxlen stoplen gotlen (copystrEnd maxlen stoplen c) :=
  .ended (hi ▸ hnz) rfl hgot (hi ▸ ⟨h.dest,h.loads,h.stores⟩)

theorem copystrLoop_outcome (hs : s + min maxlen stoplen ≤ 2 ^ 32)
    (hd : d + min maxlen stoplen ≤ 2 ^ 32) (hn : i + n = maxlen) (hle : i ≤ stoplen)
    (hnz : ∀ j < i, src (s + j) ≠ 0) (hgot : c.gotlen = gotlen) (h : Ran src s dest d i c) :
    Outcome src s dest d maxlen stoplen gotlen (copystrLoop d src s maxlen stoplen n i c) := by
  induction n generalizing i c with
  | zero => exact outcome_end (by omega) hnz hgot h
  | succ n ih =>
    rw [copystrLoop]
    by_cases hlt : i < maxlen ∧ i < stoplen
    · have hran := h.byte (by omega) (by omega)
      have haddr : address s i = s + i := address_eq (by omega)
      rw [if_pos hlt]
      by_cases hz : src (address s i) = 0
      · rw [if_pos hz]
        rw [haddr] at hz
        have hmap : c.gotlen.map (fun _ => i + 1) = gotlen.map fun _ => i + 1 := by rw [hgot]
        exact .found i (by omega) ⟨hz,hnz⟩ rfl hmap ⟨hran.dest,hran.loads,hran.stores⟩
      · rw [if_neg hz]
        rw [haddr] at hz
        refine ih (by omega) (by omega) (fun j hj => ?_) hgot hran
        rcases Nat.lt_succ_iff_lt_or_eq.mp hj with hj | rfl
        · exact hnz j hj
        · exact hz
    · rw [if_neg hlt]
      exact outcome_end (by omega) hnz hgot h

theorem copystr_outcome (dest : Mem) (gotlen : Option Nat) (hs : s + min maxlen stoplen ≤ 2 ^ 32)
    (hd : d + min maxlen stoplen ≤ 2 ^ 32) :
    Outcome src s dest d maxlen stoplen gotlen (copystr d src s maxlen stoplen dest gotlen) :=
  copystrLoop_outcome hs hd (Nat.zero_add _) (Nat.zero_le _) (fun _ hj => absurd hj (Nat.not_lt_zero _))
    rfl (Ran.zero src dest s d gotlen none)

def Found (src : Mem) (s p len k : Nat) : Prop :=
  p < usertop ∧ Terminated src s k ∧ k < len ∧ p + k < usertop

def TooLong (src : Mem) (s p len : Nat) : Prop :=
  p < usertop ∧ p + len ≤ usertop ∧ ∀ i < len, src (s + i) ≠ 0

structure StringCopy (src : Mem) (s : Nat) (dest : Mem) (d p len : Nat) (c : Copied) : Prop where
  found : ∀ k, c.result = none ∧ c.gotlen = some (k + 1) ↔ Found src s p len k
  bytes : ∀ k, Found src s p len k → ∀ i ≤ k, c.dest (d + i) = src (s + i)
  toolong : c.result = some .enametoolong ↔ TooLong src s p len
  fault : c.result = some .efault ↔ (¬ ∃ k, Found src s p len k) ∧ ¬ TooLong src s p len
  loads : ∀ a ∈ c.loads, ∃ i < len, p + i < usertop ∧ a = s + i
  stores : ∀ a ∈ c.stores, ∃ i < len, p + i < usertop ∧ a = d + i
  kept : ∀ a, a ∉ c.stores → c.dest a = dest a

theorem Ran.touches (h : Ran src s dest d n c) (hn : n ≤ len) (hp : p + n ≤ usertop) :
    (∀ a ∈ c.loads, ∃ i < len, p + i < usertop ∧ a = s + i) ∧
      (∀ a ∈ c.stores, ∃ i < len, p + i < usertop ∧ a = d + i) ∧
      ∀ a, a ∉ c.stores → c.dest a = dest a := by
  rw [h.loads,h.stores,h.dest]
  refine ⟨fun a ha => ?_,fun a ha => ?_,fun a ha => ?_⟩
  · rw [List.mem_range'_1] at ha
    exact ⟨a - s,by omega,by omega,by omega⟩
  · rw [List.mem_range'_1] at ha
    exact ⟨a - d,by omega,by omega,by omega⟩
  · rw [List.mem_range'_1] at ha
    unfold memmove
    rw [if_neg ha]

theorem StringCopy.of_found {g : Nat} (hk : Found src s p len k) (hres : c.result = none)
    (hgot : c.gotlen = (some g).map fun _ => k + 1) (h : Ran src s dest d (k + 1) c) :
    StringCopy src s dest d p len c := by
  obtain ⟨hp,hz,hlen,hend⟩ := hk
  obtain ⟨hloads,hstores,hkept⟩ := h.touches (p := p) hlen hend
  have hlong : ¬ TooLong src s p len := fun hl => hl.2.2 k hlen hz.1
  refine ⟨fun k' => ⟨?_,fun hf => ⟨hres,?_⟩⟩,fun k' hf i hi => ?_,?_,?_,hloads,hstores,hkept⟩
  · rintro ⟨-,hgot'⟩
    have heq : k + 1 = k' + 1 := Option.some.inj (hgot.symm.trans hgot')
    obtain rfl : k = k' := Nat.succ.inj heq
    exact ⟨hp,hz,hlen,hend⟩
  · rw [hf.2.1.unique hz]
    exact hgot
  · obtain rfl : k = k' := hz.unique hf.2.1
    rw [h.dest]
    unfold memmove
    rw [if_pos (by omega),Nat.add_sub_cancel_left]
  · simp [hres,hlong]
  · have hex : ∃ k, Found src s p len k := ⟨k,hp,hz,hlen,hend⟩
    simp [hres,hex]

theorem StringCopy.of_failed {e : Errno} (hnone : ¬ ∃ k, Found src s p len k)
    (hres : c.result = some e) (hlong : TooLong src s p len ↔ e = .enametoolong)
    (hfault : e = .efault ↔ ¬ TooLong src s p len) (hn : n ≤ len) (hp : n = 0 ∨ p + n ≤ usertop)
    (h : Ran src s dest d n c) : StringCopy src s dest d p len c := by
  have htouch : (∀ a ∈ c.loads, ∃ i < len, p + i < usertop ∧ a = s + i) ∧
      (∀ a ∈ c.stores, ∃ i < len, p + i < usertop ∧ a = d + i) ∧
      ∀ a, a ∉ c.stores → c.dest a = dest a := by
    rcases hp with rfl | hp
    · rw [h.loads,h.stores,h.dest,memmove_zero]
      simp
    · exact h.touches hn hp
  refine ⟨fun k => ?_,fun k hf => absurd ⟨k,hf⟩ hnone,?_,?_,htouch.1,htouch.2.1,htouch.2.2⟩
  · have hk : ¬ Found src s p len k := fun hf => hnone ⟨k,hf⟩
    simp [hres,hk]
  · rw [hres,hlong,Option.some_inj]
  · rw [hres,Option.some_inj,hfault]
    exact (and_iff_right hnone).symm

theorem Outcome.stringCopy {g : Nat} (hp : p < usertop) (hstop : stoplen ≤ maxlen)
    (hlimit : stoplen = maxlen ∧ p + maxlen ≤ usertop ∨ p + stoplen = usertop ∧ stoplen < maxlen)
    (h : Outcome src s dest d maxlen stoplen (some g) c) : StringCopy src s dest d p maxlen c := by
  have hmin : min maxlen stoplen = stoplen := Nat.min_eq_right hstop
  cases h with
  | found k hk hz hres hgot hran =>
    exact .of_found ⟨hp,hz,by omega,by omega⟩ hres hgot hran
  | ended hnz hres hgot hran =>
    rw [hmin] at hnz hran
    have hnone : ¬ ∃ k, Found src s p maxlen k := by
      rintro ⟨k,-,hz,hlt,hend⟩
      exact hnz k (by omega) hz.1
    rcases hlimit with ⟨rfl,hend⟩ | ⟨hend,hlt⟩
    · have hlong : TooLong src s p stoplen := ⟨hp,hend,hnz⟩
      rw [if_neg (Nat.lt_irrefl _)] at hres
      exact .of_failed hnone hres (by simp [hlong]) (by simp [hlong]) hstop (.inr hend) hran
    · have hlong : ¬ TooLong src s p maxlen := fun hl => by
        have hin := hl.2.1
        omega
      rw [if_pos hlt] at hres
      exact .of_failed hnone hres (by simp [hlong]) (by simp [hlong]) hstop (.inr (by omega)) hran

theorem refused_stringCopy (h : usertop ≤ p) (gotlen : Option Nat) :
    StringCopy src s dest d p len (refused .efault dest gotlen) := by
  have hnone : ¬ ∃ k, Found src s p len k := by
    rintro ⟨k,hf⟩
    exact absurd hf.1 (Nat.not_lt.mpr h)
  have hlong : ¬ TooLong src s p len := fun hl => absurd hl.1 (Nat.not_lt.mpr h)
  exact .of_failed hnone rfl (by simp [hlong]) (by simp [hlong]) (Nat.zero_le _) (.inl rfl)
    (Ran.zero src dest s d gotlen (some .efault))

theorem copycheck_limit (hlen : 1 ≤ len) (hend : p + len ≤ 2 ^ 32) :
    usertop ≤ p ∧ copycheck p len = (some .efault, len) ∨
      p < usertop ∧ ∃ stoplen ≤ len, copycheck p len = (none, stoplen) ∧
        (stoplen = len ∧ p + len ≤ usertop ∨ p + stoplen = usertop ∧ stoplen < len) := by
  by_cases hp : usertop ≤ p
  · have hw : ¬ Within p len := fun hw => absurd hw.1 (Nat.not_lt.mpr hp)
    have ho : ¬ Overlaps p len := fun ho => absurd ho.1 (Nat.not_lt.mpr hp)
    have hlow : 0 < p := Nat.lt_of_lt_of_le (by decide) hp
    exact .inl ⟨hp,copycheck_fault (by omega) (by omega) hw ho⟩
  · rw [Nat.not_le] at hp
    refine .inr ⟨hp,?_⟩
    by_cases hin : p + len ≤ usertop
    · exact ⟨len,Nat.le_refl _,copycheck_whole (by omega) ⟨hp,hin⟩,.inl ⟨rfl,hin⟩⟩
    · exact ⟨usertop - p,by omega,copycheck_cut ⟨hp,by omega,hend⟩,.inr ⟨by omega,by omega⟩⟩

theorem copyinstr_stringCopy (hlen : 1 ≤ len) (hend : p + len ≤ 2 ^ 32) (user dest : Mem) (g : Nat) :
    StringCopy user p dest 0 p len (copyinstr user p dest len (some g)) := by
  unfold copyinstr
  rcases copycheck_limit hlen hend with ⟨hp,hc⟩ | ⟨hp,stoplen,hle,hc,hlimit⟩
  · rw [hc]
    exact refused_stringCopy hp _
  · rw [hc]
    exact (copystr_outcome dest (some g) (by omega) (by omega)).stringCopy hp hle hlimit

theorem copyoutstr_stringCopy (hlen : 1 ≤ len) (hend : p + len ≤ 2 ^ 32) (src user : Mem) (g : Nat) :
    StringCopy src 0 user p p len (copyoutstr src user p len (some g)) := by
  unfold copyoutstr
  rcases copycheck_limit hlen hend with ⟨hp,hc⟩ | ⟨hp,stoplen,hle,hc,hlimit⟩
  · rw [hc]
    exact refused_stringCopy hp _
  · rw [hc]
    exact (copystr_outcome user (some g) (by omega) (by omega)).stringCopy hp hle hlimit

theorem copystrLoop_gotlen (g : Option Nat) (c : Copied) :
    copystrLoop d src s maxlen stoplen n i { c with gotlen := none } =
      { copystrLoop d src s maxlen stoplen n i { c with gotlen := g } with gotlen := none } := by
  induction n generalizing i c with
  | zero => rfl
  | succ n ih =>
    simp only [copystrLoop]
    split
    · split
      · rfl
      · exact ih (copystrByte d src s i c)
    · rfl

theorem copystr_null (dest : Mem) (g : Nat) :
    copystr d src s maxlen stoplen dest none =
      { copystr d src s maxlen stoplen dest (some g) with gotlen := none } :=
  copystrLoop_gotlen (some g) ⟨none,dest,none,[],[]⟩

theorem copyinstr_null (user dest : Mem) (g : Nat) :
    copyinstr user p dest len none =
      { copyinstr user p dest len (some g) with gotlen := none } := by
  unfold copyinstr
  obtain ⟨_ | e,stoplen⟩ := copycheck p len
  · exact copystr_null dest g
  · rfl

theorem copyoutstr_null (src user : Mem) (g : Nat) :
    copyoutstr src user p len none =
      { copyoutstr src user p len (some g) with gotlen := none } := by
  unfold copyoutstr
  obtain ⟨_ | e,stoplen⟩ := copycheck p len
  · exact copystr_null user g
  · rfl

end Strings

theorem string_copies_as_documented {p len : Nat} (hlen : 1 ≤ len) (hend : p + len ≤ 2 ^ 32)
    (user kern : Mem) (g : Nat) :
    (StringCopy user p kern 0 p len (copyinstr user p kern len (some g)) ∧
        copyinstr user p kern len none =
          { copyinstr user p kern len (some g) with gotlen := none }) ∧
      StringCopy kern 0 user p p len (copyoutstr kern user p len (some g)) ∧
        copyoutstr kern user p len none =
          { copyoutstr kern user p len (some g) with gotlen := none } :=
  ⟨⟨copyinstr_stringCopy hlen hend user kern g,copyinstr_null user kern g⟩,
    copyoutstr_stringCopy hlen hend kern user g,copyoutstr_null kern user g⟩

def topString : Mem := fun a => if a = usertop - 3 then 104 else if a = usertop - 2 then 105 else 0

theorem string_copies_at_usertop :
    (copyinstr topString (usertop - 3) zeros 8 (some 0)).result = none ∧
      (copyinstr topString (usertop - 3) zeros 8 (some 0)).gotlen = some 3 := by
  have h := (@string_copies_as_documented (usertop - 3) 8 (by decide) (by decide)
    topString zeros 0).1.1
  refine (h.found 2).mpr ⟨by decide,⟨rfl,fun j hj => ?_⟩,by decide,by decide⟩
  rcases (by omega : j = 0 ∨ j = 1) with rfl | rfl <;> decide

end OS161.Copyinout
