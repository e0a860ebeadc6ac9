import OS161.Kheap.Model

namespace OS161.Kheap

open Bytes (load32 store32)
open Linked

structure Page where
  ref : Nat
  addr : Nat
  type : Nat
  free : List Nat
  deriving DecidableEq, Repr

namespace Page

def size (p : Page) : Nat := sizeOf p.type

def IsBlock (p : Page) (a : Nat) : Prop :=
  p.addr ≤ a ∧ a < p.addr + pageSize ∧ (a - p.addr) % p.size = 0

def offset (p : Page) : Nat :=
  match p.free with
  | [] => invalidOffset
  | a :: _ => a - p.addr

end Page

def nextPtr (m : Bytes.Mem) (a : Nat) : Option Nat := if load32 m a = 0 then none else some (load32 m a)

def Heap.refUsed (h : Heap) (r : Nat) : Bool := Bits.get 32 h.inuse r

structure PageOk (h : Heap) (p : Page) : Prop where
  type : p.type < nsizes
  aligned : p.addr % pageSize = 0
  pos : 0 < p.addr
  top : p.addr + pageSize < 2 ^ 32
  pab : (h.pagerefs p.ref).pageaddrAndBlocktype = p.addr + p.type
  offset : (h.pagerefs p.ref).freelistOffset = p.offset
  nfree : (h.pagerefs p.ref).nfree = p.free.length
  links : Links (nextPtr h.mem) p.free.head? p.free
  nodup : p.free.Nodup
  block : ∀ a ∈ p.free, p.IsBlock a

structure Rep (h : Heap) (ps : List Page) : Prop where
  refs : ∀ p ∈ ps, p.ref < npagerefs
  nodup : (ps.map Page.ref).Nodup
  bits : ∀ r, r < npagerefs → (h.refUsed r = true ↔ r ∈ ps.map Page.ref)
  words : ∀ i, h.inuse i < 2 ^ 32
  all : Links (fun r => (h.pagerefs r).nextAll) h.allbase (ps.map Page.ref)
  same : ∀ t, t < nsizes → Links (fun r => (h.pagerefs r).nextSamesize) (h.sizebases t)
    ((ps.filter (·.type = t)).map Page.ref)
  page : ∀ p ∈ ps, PageOk h p
  apart : (ps.map Page.addr).Nodup

section
variable {t : Nat}

theorem sizeOf_cases (ht : t < nsizes) : 16 ≤ sizeOf t ∧ sizeOf t ≤ 2048 ∧ 4096 % sizeOf t = 0 ∧
    sizeOf t % 4 = 0 := by
  unfold nsizes at ht
  have : t = 0 ∨ t = 1 ∨ t = 2 ∨ t = 3 ∨ t = 4 ∨ t = 5 ∨ t = 6 ∨ t = 7 := by omega
  rcases this with rfl | rfl | rfl | rfl | rfl | rfl | rfl | rfl <;> decide

theorem block_fits {p : Page} {a : Nat} (ht : p.type < nsizes) (ha : p.IsBlock a) :
    a + p.size ≤ p.addr + pageSize := by
  obtain ⟨h16,-,hdvd,-⟩ := sizeOf_cases ht
  obtain ⟨hlo,hhi,hmod⟩ := ha
  unfold Page.size at *
  unfold pageSize at *
  obtain ⟨k,hk⟩ := Nat.dvd_of_mod_eq_zero hmod
  obtain ⟨n,hn⟩ := Nat.dvd_of_mod_eq_zero hdvd
  have hkn : k < n := by
    by_contra hle
    have := Nat.mul_le_mul_left (sizeOf p.type) (Nat.le_of_not_lt hle)
    omega
  have := Nat.mul_le_mul_left (sizeOf p.type) hkn
  rw [Nat.mul_succ] at this
  omega

theorem blocks_apart {p : Page} {a b : Nat} (ht : p.type < nsizes) (ha : p.IsBlock a)
    (hb : p.IsBlock b) (hne : a ≠ b) : a + p.size ≤ b ∨ b + p.size ≤ a := by
  obtain ⟨h16,-,-,-⟩ := sizeOf_cases ht
  obtain ⟨halo,-,hamod⟩ := ha
  obtain ⟨hblo,-,hbmod⟩ := hb
  unfold Page.size at *
  obtain ⟨k,hk⟩ := Nat.dvd_of_mod_eq_zero hamod
  obtain ⟨n,hn⟩ := Nat.dvd_of_mod_eq_zero hbmod
  rcases Nat.lt_trichotomy k n with hlt | rfl | hlt
  · have := Nat.mul_le_mul_left (sizeOf p.type) hlt
    rw [Nat.mul_succ] at this
    omega
  · omega
  · have := Nat.mul_le_mul_left (sizeOf p.type) hlt
    rw [Nat.mul_succ] at this
    omega

theorem pages_apart {p q : Page} (hp : p.addr % pageSize = 0) (hq : q.addr % pageSize = 0)
    (hne : p.addr ≠ q.addr) : p.addr + pageSize ≤ q.addr ∨ q.addr + pageSize ≤ p.addr := by
  unfold pageSize at *
  omega

end

section
variable {h h' : Heap} {p p' q : Page} {xs ys ps : List Page}

theorem PageOk.pageaddr (hp : PageOk h p) : prPageaddr (h.pagerefs p.ref) = p.addr := by
  have h1 := hp.type
  have h2 := hp.aligned
  unfold prPageaddr
  rw [hp.pab]
  unfold pageSize nsizes at *
  omega

theorem PageOk.blocktype (hp : PageOk h p) : prBlocktype (h.pagerefs p.ref) = p.type := by
  have h1 := hp.type
  have h2 := hp.aligned
  unfold prBlocktype
  rw [hp.pab]
  unfold pageSize nsizes at *
  omega

theorem PageOk.transfer (hp : PageOk h p)
    (hpab : (h'.pagerefs p.ref).pageaddrAndBlocktype = (h.pagerefs p.ref).pageaddrAndBlocktype)
    (hoff : (h'.pagerefs p.ref).freelistOffset = (h.pagerefs p.ref).freelistOffset)
    (hnf : (h'.pagerefs p.ref).nfree = (h.pagerefs p.ref).nfree)
    (hm : ∀ x, p.addr ≤ x → x < p.addr + pageSize → h'.mem x = h.mem x) : PageOk h' p := by
  refine ⟨hp.type,hp.aligned,hp.pos,hp.top,hpab.trans hp.pab,hoff.trans hp.offset,
    hnf.trans hp.nfree,?_,hp.nodup,hp.block⟩
  refine hp.links.congr fun a ha => ?_
  have hfit := block_fits hp.type (hp.block a ha)
  have h16 := (sizeOf_cases hp.type).1
  have hlo := (hp.block a ha).1
  unfold Page.size at hfit
  unfold nextPtr
  rw [Bytes.load32_congr fun x _ _ => hm x (by omega) (by omega)]

theorem PageOk.congr (hp : PageOk h p) (hpr : h'.pagerefs p.ref = h.pagerefs p.ref)
    (hm : ∀ x, p.addr ≤ x → x < p.addr + pageSize → h'.mem x = h.mem x) : PageOk h' p :=
  hp.transfer (by rw [hpr]) (by rw [hpr]) (by rw [hpr]) hm

theorem Rep.others (hr : Rep h (xs ++ p :: ys)) (hq : q ∈ xs ++ ys) :
    q ∈ xs ++ p :: ys ∧ q.ref ≠ p.ref ∧ q.addr ≠ p.addr := by
  have hmem : q ∈ xs ++ p :: ys := by
    rcases List.mem_append.mp hq with hq | hq <;> simp [hq]
  have hnd := hr.nodup
  have hap := hr.apart
  simp only [List.map_append,List.map_cons] at hnd hap
  obtain ⟨hnot,-⟩ := List.nodup_middle.mp hnd |> List.nodup_cons.mp
  obtain ⟨hnot',-⟩ := List.nodup_middle.mp hap |> List.nodup_cons.mp
  rw [← List.map_append] at hnot hnot'
  exact ⟨hmem,fun heq => hnot (List.mem_map.mpr ⟨q,hq,heq⟩),
    fun heq => hnot' (List.mem_map.mpr ⟨q,hq,heq⟩)⟩

end

end OS161.Kheap
