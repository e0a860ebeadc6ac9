import OS161.Kheap.KernelHeap

namespace OS161.Thread

open Bytes (load32 store32)
open Kheap (Heap Client HeapOp Intact Kpages pageSize)

def sizeofLock : Nat := 16

def heldOffset : Nat := 4

def pointerOffset : Nat := 12

def alloc (s : Client) (sz page : Nat) : Option (Nat × Client) :=
  match s.step (.kmalloc sz page), Kheap.kmalloc s.heap sz page with
  | some s', .ok (p, _) => some (p, s')
  | _, _ => none

def strcpy (m : Bytes.Mem) (dst : Nat) : List UInt8 → Bytes.Mem
  | [] => Function.update m dst 0
  | b :: bs => strcpy (Function.update m dst b) (dst + 1) bs

def setMem (s : Client) (m : Bytes.Mem) : Client := { s with heap := { s.heap with mem := m } }

def kstrdup (s : Client) (name : List UInt8) (page : Nat) : Option (Nat × Client) := do
  let (z, s) ← alloc s (name.length + 1) page
  if z = 0 then some (0, s)
  else some (z, setMem s (strcpy s.heap.mem z name))

-- The two pages are what alloc_kpages would answer to the two kmalloc calls.
def lockCreate (s : Client) (name : List UInt8) (page page' : Nat) : Option (Nat × Client) := do
  let (lock, s) ← alloc s sizeofLock page
  if lock = 0 then some (0, s)
  else do
    let (z, s) ← kstrdup s name page'
    if z = 0 then do
      let s ← s.step (.kfree lock)
      some (0, s)
    else some (lock, setMem s (store32 s.heap.mem lock z))

def lockDoIHold (m : Bytes.Mem) (lock cur : Nat) : Bool := load32 m (lock + pointerOffset) == cur

def lockAcquire (m : Bytes.Mem) (lock cur : Nat) : Kern Bytes.Mem := do
  assert (lock ≠ 0) "lock != NULL"
  assert (!lockDoIHold m lock cur) "!lock_do_i_hold(lock)"
  if load32 m (lock + heldOffset) ≠ 0 then .error .asleep
  else .ok (store32 (store32 m (lock + heldOffset) 1) (lock + pointerOffset) cur)

section
variable {h h' : Heap} {m m' : Bytes.Mem} {x : Nat}

theorem off_first_word {size a : Nat} (hx : 4 ≤ x % size) (ha : a % size = 0) :
    x < a ∨ a + 4 ≤ x := by
  by_contra hin
  push Not at hin
  obtain ⟨d,rfl⟩ : ∃ d, x = a + d := ⟨x - a,by omega⟩
  rw [Nat.add_mod,ha,Nat.zero_add,Nat.mod_mod] at hx
  have := Nat.mod_le d size
  omega

theorem chainBlocks_mem {fla size : Nat} (hx : 4 ≤ x % size) (hfla : fla % size = 0) : ∀ n m',
    fla + n * size < 2 ^ 32 → Kheap.chainBlocks fla size n m = .ok m' → m' x = m x := by
  intro n
  induction n with
  | zero =>
    intro m' _ hok
    cases hok
    exact Bytes.store32_of_outside (off_first_word hx hfla)
  | succ n ih =>
    intro m' htop hok
    have hmul : (n + 1) * size = n * size + size := Nat.succ_mul n size
    unfold Kheap.chainBlocks at hok
    obtain ⟨m₁,hrec,hok⟩ := bind_ok hok
    have hcast : u32 ((fla : Int) + ((n : Int) + 1) * size) = fla + (n + 1) * size := by
      rw [show (fla : Int) + ((n : Int) + 1) * size = ((fla + (n + 1) * size : Nat) : Int) by
        push_cast; rfl]
      exact u32_of_nat htop
    rw [hcast] at hok
    cases (assert_bind_ok hok).2
    have halign : (fla + (n + 1) * size) % size = 0 := by
      rw [Nat.add_mul_mod_self_right,hfla]
    rw [Bytes.store32_of_outside (off_first_word hx halign)]
    exact ih m₁ (by omega) hrec

theorem initPage_mem {r page : Nat} (hx : 4 ≤ x % 16) (hpage : page % pageSize = 0)
    (htop : page + pageSize < 2 ^ 32) (hok : Kheap.initPage h r page 0 = .ok h') :
    h'.mem x = h.mem x := by
  unfold Kheap.initPage at hok
  obtain ⟨m',hchain,hok⟩ := bind_ok hok
  cases (assert_bind_ok hok).2
  unfold pageSize at hpage htop
  refine chainBlocks_mem hx ?_ _ _ ?_ hchain
  · omega
  · show page + (256 - 1) * 16 < 2 ^ 32
    omega

theorem doalloc_mem {r p : Nat} (hok : Kheap.doalloc h r = .ok (p, h')) : h'.mem = h.mem := by
  unfold Kheap.doalloc at hok
  have hok := (assert_bind_ok hok).2
  dsimp only at hok
  split at hok
  · cases (assert_bind_ok (assert_bind_ok hok).2).2
    rfl
  · cases (assert_bind_ok hok).2
    rfl

theorem kmalloc_lock_mem {page p : Nat} {ks : List Kpages} (hx : 4 ≤ x % 16)
    (hpage : page = 0 ∨ page % pageSize = 0 ∧ page + pageSize < 2 ^ 32)
    (hok : Kheap.kmalloc h sizeofLock page = .ok (p, h', ks)) : h'.mem x = h.mem x := by
  have hsub : Kheap.subpageKmalloc h 16 page = .ok (p, h', ks) := hok
  unfold Kheap.subpageKmalloc at hsub
  obtain ⟨t,ht,hsub⟩ := bind_ok hsub
  obtain rfl : 0 = t := Except.ok.inj ht
  obtain ⟨found,-,hsub⟩ := bind_ok hsub
  cases found with
  | some r =>
    obtain ⟨⟨p₁,h₁⟩,hdo,hret⟩ := bind_ok hsub
    cases hret
    rw [doalloc_mem hdo]
  | none =>
    obtain ⟨ref,href,hsub⟩ := bind_ok hsub
    cases ref with
    | none =>
      cases hsub
      rfl
    | some rh =>
      obtain ⟨r,h₁⟩ := rh
      have hmem : h₁.mem = h.mem := by
        unfold Kheap.allocpageref at href
        split at href <;> cases href
        rfl
      dsimp only at hsub
      split at hsub
      · obtain ⟨h₂,hfree,hret⟩ := bind_ok hsub
        cases hret
        unfold Kheap.freepageref at hfree
        cases (assert_bind_ok (assert_bind_ok hfree).2).2
        rw [← hmem]
      · rename_i hne
        obtain ⟨h₂,hinit,hsub⟩ := bind_ok hsub
        obtain ⟨⟨p₁,h₃⟩,hdo,hret⟩ := bind_ok hsub
        cases hret
        obtain ⟨halign,htop⟩ := hpage.resolve_left hne
        rw [doalloc_mem hdo,initPage_mem hx halign htop hinit,hmem]

theorem strcpy_of_outside : ∀ (bs : List UInt8) (m : Bytes.Mem) (dst : Nat),
    x < dst ∨ dst + bs.length + 1 ≤ x → strcpy m dst bs x = m x := by
  intro bs
  induction bs with
  | nil =>
    intro m dst hx
    exact Function.update_of_ne (by simp at hx; omega) _ _
  | cons b bs ih =>
    intro m dst hx
    rw [List.length_cons] at hx
    unfold strcpy
    rw [ih _ _ (by omega),Function.update_of_ne (by omega)]

end

section Create
variable {s s' : Client} {ps : List Kheap.Page} {sz page p : Nat}

structure Allocated (s : Client) (sz page p : Nat) (s' : Client) : Prop where
  grants : s.grants (Kheap.pagesWanted sz) page = true
  served : ∃ h ks, Kheap.kmalloc s.heap sz page = .ok (p, h, ks) ∧ s'.heap = h
  live : s'.live = if p = 0 then s.live else (p, sz) :: s.live
  intact : ∃ ps', Intact s' ps'

theorem alloc_spec (hi : Intact s ps) (hok : alloc s sz page = some (p, s')) :
    Allocated s sz page p s' := by
  unfold alloc at hok
  split at hok
  · rename_i s₁ p₁ rest hstep hk
    cases hok
    obtain ⟨ps',hi',-⟩ := hi.step hstep
    unfold Client.step at hstep
    rw [if_neg (not_not.mpr hi.running)] at hstep
    obtain ⟨hguard,hstep⟩ := Option.ite_none_right_eq_some.mp hstep
    obtain rfl := Option.some.inj hstep
    have heq : s.kmalloc sz page = { s with
        heap := rest.1, owned := rest.2.foldl Kpages.apply s.owned,
        live := if p = 0 then s.live else (p, sz) :: s.live } := by
      unfold Client.kmalloc
      rw [hk]
    rw [heq] at hi' ⊢
    exact ⟨hguard.2,⟨_,_,hk,rfl⟩,rfl,ps',hi'⟩
  · cases hok

theorem Allocated.keeps (ha : Allocated s sz page p s') (hi : Intact s ps) {e : Nat × Nat}
    (he : e ∈ s.live) {x : Nat} (hlo : e.1 ≤ x) (hhi : x < e.1 + e.2) :
    s'.heap.mem x = s.heap.mem x := by
  obtain ⟨h',ks,hk,heq⟩ := ha.served
  rw [heq]
  have hgrants := ha.grants
  rcases Nat.lt_or_ge sz Kheap.largestSubpageSize with hsz | hsz
  · have hwant : Kheap.pagesWanted sz = 1 := if_neg (Nat.not_le.mpr hsz)
    rw [hwant] at hgrants
    have hpage := Kheap.grants_spec Nat.one_pos hgrants
    obtain ⟨t,res,hok,hserved,-,-⟩ := Kheap.subpageKmalloc_spec hi.rep hsz
      (hpage.imp_right fun ⟨hrun,hap⟩ => hi.tracks.granted hrun hap)
    have hres : res = (p, h', ks) := by
      have := (if_neg (Nat.not_le.mpr hsz)).symm.trans hk
      rw [hok] at this
      exact Except.ok.inj this
    subst hres
    cases hserved with
    | refused _ hm _ => rw [hm]
    | reused _ _ _ _ hm => rw [hm]
    | opened hg _ _ hm =>
      obtain ⟨hrun,hap⟩ := hpage.resolve_left (Nat.ne_of_gt hg.pos)
      obtain ⟨r,hr,hin,hfit⟩ := hi.tracks.located he
      have := hap r hr
      unfold Kheap.Apart at this
      unfold Kheap.InRun at hin
      exact hm x (by omega)
  · have := (if_pos hsz).symm.trans hk
    cases this
    rfl

theorem aligned_of_live (hi : Intact s ps) (he : (p, sizeofLock) ∈ s.live) : p % 16 = 0 := by
  obtain ⟨q,hq,hblk,-⟩ := hi.tracks.small _ he (by decide : 16 < Kheap.largestSubpageSize)
  have hpok := hi.rep.page q hq
  have halign := hpok.aligned
  obtain ⟨hlo,-,hmod⟩ := hblk
  have hsize : q.size % 16 = 0 := by
    have hsizes : ∀ t < Kheap.nsizes, Kheap.sizeOf t % 16 = 0 := by decide
    exact hsizes q.type hpok.type
  have hdiv : 16 ∣ p - q.addr := (Nat.dvd_of_mod_eq_zero hsize).trans (Nat.dvd_of_mod_eq_zero hmod)
  unfold pageSize at halign
  omega

theorem kstrdup_spec (hi : Intact s ps) {name : List UInt8} {z : Nat}
    (hok : kstrdup s name page = some (z, s')) (hz : z ≠ 0) (he : (p, sizeofLock) ∈ s.live)
    {x : Nat} (hlo : p ≤ x) (hhi : x < p + sizeofLock) : s'.heap.mem x = s.heap.mem x := by
  unfold kstrdup at hok
  obtain ⟨⟨z₁,s₁⟩,hal,hok⟩ := Option.bind_eq_some_iff.mp hok
  have hspec := alloc_spec hi hal
  dsimp only at hok
  split at hok
  · cases hok
    exact absurd rfl hz
  · rename_i hne
    cases hok
    obtain ⟨ps₁,hi₁⟩ := hspec.intact
    have hapart := hi₁.tracks.live_apart
    rw [hspec.live,if_neg hne,List.pairwise_cons] at hapart
    have := hapart.1 _ he
    show strcpy s₁.heap.mem z name x = s.heap.mem x
    rw [strcpy_of_outside name _ z (by omega)]
    exact hspec.keeps hi he hlo hhi

theorem lockCreate_word (hi : Intact s ps) {name : List UInt8} {page' lock : Nat}
    (hok : lockCreate s name page page' = some (lock, s')) (hne : lock ≠ 0) {k : Nat}
    (hk : 4 ≤ k) (hk' : k + 4 ≤ 16) :
    load32 s'.heap.mem (lock + k) = load32 s.heap.mem (lock + k) := by
  unfold lockCreate at hok
  obtain ⟨⟨lock₁,s₁⟩,hal,hok⟩ := Option.bind_eq_some_iff.mp hok
  have hspec := alloc_spec hi hal
  dsimp only at hok
  split at hok
  · cases hok
    exact absurd rfl hne
  · rename_i hne₁
    obtain ⟨⟨z,s₂⟩,hdup,hok⟩ := Option.bind_eq_some_iff.mp hok
    split at hok
    · obtain ⟨s₃,-,hok⟩ := Option.bind_eq_some_iff.mp hok
      cases hok
      exact absurd rfl hne
    · rename_i hz
      cases hok
      obtain ⟨ps₁,hi₁⟩ := hspec.intact
      have hlive : (lock, sizeofLock) ∈ s₁.live := by
        rw [hspec.live,if_neg hne]
        exact List.mem_cons_self
      have halign := aligned_of_live hi₁ hlive
      obtain ⟨h',ks,hkm,hheap⟩ := hspec.served
      have hpage : page = 0 ∨ page % pageSize = 0 ∧ page + pageSize < 2 ^ 32 := by
        rcases Kheap.grants_spec Nat.one_pos hspec.grants with h0 | ⟨hrun,-⟩
        · exact Or.inl h0
        · exact Or.inr ⟨hrun.aligned,by simpa using hrun.top⟩
      refine Bytes.load32_congr fun x hlo hhi => ?_
      show store32 s₂.heap.mem lock z x = s.heap.mem x
      rw [Bytes.store32_of_outside (by omega),
        kstrdup_spec hi₁ hdup hz hlive (by omega) (by unfold sizeofLock; omega),hheap]
      exact kmalloc_lock_mem (by omega) hpage hkm

end Create

theorem new_lock_free_iff {mem : Bytes.Mem} {ops : List HeapOp} {s s' : Client} {name : List UInt8}
    {page page' lock : Nat} {threads : List Nat}
    (hrun : Run.exec Client.step (Client.boot mem) ops = some s)
    (hcreate : lockCreate s name page page' = some (lock, s')) (hlock : lock ≠ 0)
    (hthreads : threads ≠ []) :
    (∀ t ∈ threads, lockDoIHold s'.heap.mem lock t = false ∧
      ∃ m, lockAcquire s'.heap.mem lock t = .ok m) ↔
    load32 s.heap.mem (lock + heldOffset) = 0 ∧
      ∀ t ∈ threads, load32 s.heap.mem (lock + pointerOffset) ≠ t := by
  obtain ⟨ps,hi⟩ := Kheap.intact_along hrun
  have hheld : load32 s'.heap.mem (lock + heldOffset) = load32 s.heap.mem (lock + heldOffset) :=
    lockCreate_word hi hcreate hlock (by decide) (by decide)
  have hptr : load32 s'.heap.mem (lock + pointerOffset) =
      load32 s.heap.mem (lock + pointerOffset) :=
    lockCreate_word hi hcreate hlock (by decide) (by decide)
  have hhold : ∀ t, lockDoIHold s'.heap.mem lock t = false ↔
      load32 s.heap.mem (lock + pointerOffset) ≠ t := by
    intro t
    rw [lockDoIHold,hptr,beq_eq_false_iff_ne]
  constructor
  · intro hfree
    refine ⟨?_,fun t ht => (hhold t).mp (hfree t ht).1⟩
    obtain ⟨t,ht⟩ := List.exists_mem_of_ne_nil threads hthreads
    obtain ⟨-,m,hacq⟩ := hfree t ht
    have hacq := (assert_bind_ok (assert_bind_ok hacq).2).2
    by_contra hne
    rw [if_pos (by rw [hheld]; exact hne)] at hacq
    cases hacq
  · rintro ⟨h0,hno⟩ t ht
    have hfalse := (hhold t).mpr (hno t ht)
    refine ⟨hfalse,store32 (store32 s'.heap.mem (lock + heldOffset) 1) (lock + pointerOffset) t,?_⟩
    unfold lockAcquire
    rw [assert_of (decide_eq_true hlock),ok_bind,assert_of (by rw [hfalse]; rfl),ok_bind,
      if_neg (by rw [hheld,h0]; decide)]

def reusedBlock : List HeapOp :=
  [.kmalloc 16 0x80001000, .kmalloc 16 0, .kfree 0x80001fe0]

theorem new_lock_not_free : ∃ s lock s',
    Run.exec Client.step (Client.boot fun _ => 0) reusedBlock = some s ∧
    lockCreate s [108] 0 0 = some (lock, s') ∧ lock ≠ 0 ∧
    load32 s'.heap.mem (lock + heldOffset) = 0xdeadbeef ∧
    lockAcquire s'.heap.mem lock 0x80002000 = .error .asleep := by
  have hview : ((Run.exec Client.step (Client.boot fun _ => 0) reusedBlock).bind fun s =>
      (lockCreate s [108] 0 0).map fun (lock, s') =>
        (lock, load32 s'.heap.mem (lock + heldOffset),
          load32 s'.heap.mem (lock + pointerOffset))) =
      some (0x80001fe0, 0xdeadbeef, 0xdeadbeef) := by
    decide +kernel
  obtain ⟨s,hs,hv⟩ := Option.bind_eq_some_iff.mp hview
  obtain ⟨⟨lock,s'⟩,hc,hv⟩ := Option.map_eq_some_iff.mp hv
  simp only [Prod.mk.injEq] at hv
  obtain ⟨rfl,hheld,hptr⟩ := hv
  refine ⟨s,_,s',hs,hc,by decide,hheld,?_⟩
  unfold lockAcquire lockDoIHold
  rw [hptr,hheld]
  rfl

theorem new_lock_free_at_boot : ∃ s',
    lockCreate (Client.boot fun _ => 0) [108] 0x80001000 0 = some (0x80001ff0, s') ∧
    ∀ t ∈ [0x80002000], lockDoIHold s'.heap.mem 0x80001ff0 t = false ∧
      ∃ m, lockAcquire s'.heap.mem 0x80001ff0 t = .ok m := by
  have hview : (lockCreate (Client.boot fun _ => 0) [108] 0x80001000 0).map Prod.fst =
      some 0x80001ff0 := by
    decide +kernel
  obtain ⟨⟨lock,s'⟩,hc,rfl⟩ := Option.map_eq_some_iff.mp hview
  exact ⟨s',hc,(new_lock_free_iff (Run.exec_nil _) hc (by decide) (by decide)).mpr
    ⟨rfl,by decide⟩⟩

end OS161.Thread
