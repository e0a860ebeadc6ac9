import OS161.Libc.Free
import OS161.Lib.Run

namespace OS161.Libc

open Layout

structure Client where
  heap : Heap
  live : List (Nat × Nat)
  stopped : Option Exit

inductive HeapOp where
  | malloc (size : Nat) (grants : Grants)
  | free (p : Nat)
  | write (p off : Nat) (v : UInt8)
  deriving DecidableEq, Repr

namespace Client

def boot (mem : Bytes.Mem) (brk : Nat) : Client := ⟨⟨mem, 0, 0, brk⟩, [], none⟩

def malloc (s : Client) (size : Nat) (grants : Grants) : Client :=
  match Libc.malloc extending s.heap size grants with
  | .error e => { s with stopped := some e }
  | .ok (p, h) => { s with heap := h, live := if p = 0 then s.live else (p, size) :: s.live }

def free (s : Client) (p : Nat) : Client :=
  match Libc.free s.heap p with
  | .error e => { s with stopped := some e }
  | .ok h => { s with heap := h, live := s.live.filter (·.1 ≠ p) }

def write (s : Client) (x : Nat) (v : UInt8) : Client :=
  { s with heap := { s.heap with mem := Function.update s.heap.mem x v } }

def step (s : Client) (op : HeapOp) : Option Client :=
  if s.stopped ≠ none then none
  else
    match op with
    | .malloc size grants => if 1 ≤ size ∧ size < 2 ^ 31 then some (s.malloc size grants) else none
    | .free p => if s.live.any (·.1 = p) then some (s.free p) else none
    | .write p off v =>
      if s.live.any fun e => e.1 = p ∧ off < e.2 then some (s.write (p + off) v) else none

end Client

structure Tracks (base : Nat) (bs : List Blk) (live : List (Nat × Nat)) : Prop where
  block : ∀ p size, (p, size) ∈ live → ∃ a b, p = a + 8 ∧ At Blk.bytes base bs a b ∧
    b.inuse = true ∧ size + 8 ≤ b.bytes
  listed : ∀ a b, At Blk.bytes base bs a b → b.inuse = true → ∃ size, (a + 8, size) ∈ live
  nodup : (live.map (·.1)).Nodup

structure LiveBlocks (base : Nat) (bs : List Blk) (live : List (Nat × Nat)) : Prop where
  aligned : ∀ e ∈ live, e.1 % 8 = 0
  roomy : ∀ e ∈ live, ∃ a b, e.1 = a + 8 ∧ At Blk.bytes base bs a b ∧ b.inuse = true ∧
    e.2 ≤ b.bytes - 8
  apart : live.Pairwise fun e f => e.1 ≠ f.1 ∧ (e.1 + e.2 ≤ f.1 ∨ f.1 + f.2 ≤ e.1)
  headers : ∀ e ∈ live, ∀ a b, At Blk.bytes base bs a b → a + 8 ≤ e.1 ∨ e.1 + e.2 ≤ a

def Untouched (s s' : Client) : HeapOp → Prop
  | .malloc _ _ => ∀ e ∈ s.live, ∀ i < e.2, s'.heap.mem (e.1 + i) = s.heap.mem (e.1 + i)
  | .free p => ∀ e ∈ s.live, e.1 ≠ p → ∀ i < e.2, s'.heap.mem (e.1 + i) = s.heap.mem (e.1 + i)
  | .write _ _ _ => True

def Intact (s : Client) : Prop :=
  match s.stopped with
  | some (.err _) => True
  | some _ => False
  | none => (s.heap.heapbase = 0 ∧ s.heap.heaptop = 0 ∧ 0 < s.heap.brk ∧ s.heap.brk < 2 ^ 32 ∧
      s.live = []) ∨ ∃ bs, Sound s.heap bs ∧ Tracks s.heap.heapbase bs s.live

def Fresh (h : Heap) : Prop := h.heapbase = 0 ∧ h.heaptop = 0 ∧ 0 < h.brk ∧ h.brk < 2 ^ 32

def Whole (n : Nat) (h : Heap) (live : List (Nat × Nat)) : Prop :=
  Fresh h ∧ live = [] ∨ ∃ bs, Packed n h bs ∧ Tracks h.heapbase bs live

section
variable {base a size n : Nat} {bs bs' : List Blk} {live : List (Nat × Nat)}

theorem span_mod (bs : List Blk) : span Blk.bytes bs % 8 = 0 := by
  induction bs with
  | nil => rfl
  | cons b bs ih =>
    have hb : b.bytes = 8 * b.units := rfl
    rw [span_cons]
    omega

theorem Tracks.inData (ht : Tracks base bs live) {e : Nat × Nat} (he : e ∈ live) {i : Nat}
    (hi : i < e.2) : InData base bs (e.1 + i) := by
  obtain ⟨a,b,hp,hat,huse,hsz⟩ := ht.block e.1 e.2 he
  exact ⟨a,b,hat,huse,by omega,by omega⟩

theorem Tracks.nil : Tracks base [] [] := ⟨nofun,nofun,List.nodup_nil⟩

theorem Tracks.liveBlocks (hbase : base % 8 = 0) (h2 : ∀ b ∈ bs, 2 ≤ b.units)
    (ht : Tracks base bs live) : LiveBlocks base bs live := by
  refine ⟨fun e he => ?_,fun e he => ?_,?_,fun e he a b hat => ?_⟩
  · obtain ⟨a,b,hp,hat,-⟩ := ht.block e.1 e.2 he
    obtain ⟨xs,ys,-,rfl⟩ := at_split.mp hat
    have := span_mod xs
    omega
  · obtain ⟨a,b,hp,hat,huse,hsz⟩ := ht.block e.1 e.2 he
    exact ⟨a,b,hp,hat,huse,by omega⟩
  · have hnd : live.Pairwise fun e f => e.1 ≠ f.1 := List.pairwise_map.mp ht.nodup
    refine hnd.imp_of_mem fun {e f} he hf hne => ?_
    obtain ⟨a,b,hp,hat,-,hsz⟩ := ht.block e.1 e.2 he
    obtain ⟨a',b',hp',hat',-,hsz'⟩ := ht.block f.1 f.2 hf
    refine ⟨hne,?_⟩
    rcases at_disjoint hat hat' with ⟨rfl,-⟩ | hx | hx <;> omega
  · obtain ⟨a',b',hp',hat',-,hsz'⟩ := ht.block e.1 e.2 he
    have h2b := Blk.bytes_pos (h2 b (at_mem hat))
    rcases at_disjoint hat hat' with ⟨rfl,-⟩ | hx | hx <;> omega

theorem Tracks.gain {h h' : Heap} (ht : Tracks h.heapbase bs live)
    (hall : Gained n h h' bs bs' a size) : Tracks h'.heapbase bs' ((a + 8, size) :: live) := by
  obtain ⟨b,huse,hsz,hat⟩ := hall.gained
  rw [hall.base]
  refine ⟨fun p sz hp => ?_,fun c d hc hd => ?_,?_⟩
  · rcases List.mem_cons.mp hp with heq | hp
    · obtain ⟨rfl,rfl⟩ := Prod.mk.inj heq
      exact ⟨a,b,rfl,(hat a b huse).mpr (.inr ⟨rfl,rfl⟩),huse,hsz⟩
    · obtain ⟨c,d,hpc,hc,hd,hsz'⟩ := ht.block p sz hp
      exact ⟨c,d,hpc,(hat c d hd).mpr (.inl hc),hd,hsz'⟩
  · rcases (hat c d hd).mp hc with hc | ⟨rfl,rfl⟩
    · obtain ⟨sz,hsz'⟩ := ht.listed c d hc hd
      exact ⟨sz,List.mem_cons_of_mem _ hsz'⟩
    · exact ⟨size,List.mem_cons_self⟩
  · rw [List.map_cons,List.nodup_cons]
    refine ⟨fun hin => ?_,ht.nodup⟩
    obtain ⟨e,he,heq⟩ := List.mem_map.mp hin
    obtain ⟨c,d,hpc,hc,hd,-⟩ := ht.block e.1 e.2 he
    have hca : c = a := by
      omega
    exact hall.fresh d hd (hca ▸ hc)

theorem Tracks.drop {h h' : Heap} {b : Blk} (ht : Tracks h.heapbase bs live)
    (hrel : Freed n h h' bs bs' a b) :
    Tracks h'.heapbase bs' (live.filter (·.1 ≠ a + 8)) := by
  rw [hrel.base]
  refine ⟨fun p sz hp => ?_,fun c d hc hd => ?_,?_⟩
  · obtain ⟨hp,hne⟩ := List.mem_filter.mp hp
    obtain ⟨c,d,hpc,hc,hd,hsz⟩ := ht.block p sz hp
    refine ⟨c,d,hpc,(hrel.lost c d hd).mpr ⟨hc,fun heq => ?_⟩,hd,hsz⟩
    simp [hpc,heq] at hne
  · obtain ⟨hc,hne⟩ := (hrel.lost c d hd).mp hc
    obtain ⟨sz,hsz⟩ := ht.listed c d hc hd
    exact ⟨sz,List.mem_filter.mpr ⟨hsz,by simpa using hne⟩⟩
  · exact ht.nodup.sublist (List.filter_sublist.map _)

end

section Steps
variable {s s' : Client} {bs : List Blk}

theorem malloc_of_init {h h' : Heap} {sbrk : Sbrk} {size : Nat} {g : Grants} (hbase : h.heapbase = 0)
    (hinit : mallocInit sbrk h g = .ok h') (hbase' : h'.heapbase ≠ 0) :
    malloc sbrk h size g = malloc sbrk h' size g := by
  unfold malloc
  rw [if_pos hbase,if_neg hbase',hinit]

theorem malloc_err {h : Heap} {sbrk : Sbrk} {size : Nat} {g : Grants} {msg : String}
    (hbase : h.heapbase = 0) (hinit : mallocInit sbrk h g = .error (.err msg)) :
    malloc sbrk h size g = .error (.err msg) := by
  unfold malloc
  rw [if_pos hbase,hinit]
  rfl

theorem Fresh.malloc {h : Heap} (size : Nat) (g : Grants) (hf : Fresh h) :
    (∃ msg, malloc extending h size g = .error (.err msg)) ∨
      ∃ h', malloc extending h size g = malloc extending h' size g ∧ ∀ n, Packed n h' [] := by
  obtain ⟨hbase,htop,hbrk,hlt⟩ := hf
  rcases mallocInit_spec (g := g) hbase htop hbrk hlt with ⟨msg,herr⟩ | ⟨h',hok,hs,-⟩
  · exact .inl ⟨msg,malloc_err hbase herr⟩
  · exact .inr ⟨h',malloc_of_init hbase hok (Nat.ne_of_gt (hs 0).base_pos),hs⟩

section Whole
variable {h h' : Heap} {live : List (Nat × Nat)} {n size p : Nat} {g : Grants}

theorem malloc_tracked (hn : 1 ≤ n) (hn2 : n ≤ 2) (hs : Packed n h bs)
    (ht : Tracks h.heapbase bs live) (hsize : n ≤ (size + 7) / 8 + 1) (h31 : size < 2 ^ 31) :
    ∃ p h', malloc extending h size g = .ok (p, h') ∧
      Whole n h' (if p = 0 then live else (p, size) :: live) ∧
      ∀ x, InData h.heapbase bs x → h'.mem x = h.mem x := by
  rcases malloc_laid size g hn hn2 hs.toLaid (roundUp_eq size (by omega)) hsize (by omega)
    (by omega) with ⟨-,hnull⟩ | ⟨-,a,h',bs',hok,hgain⟩
  · exact ⟨0,h,hnull,.inr ⟨bs,hs,by rw [if_pos rfl]; exact ht⟩,fun _ _ => rfl⟩
  · refine ⟨a + 8,h',hok,.inr ⟨bs',⟨hgain.laid,hgain.coalesced hs.coalesced⟩,?_⟩,hgain.data⟩
    rw [if_neg (by omega)]
    exact ht.gain hgain

theorem Whole.malloc (hn : 1 ≤ n) (hn2 : n ≤ 2) (hw : Whole n h live)
    (hsize : n ≤ (size + 7) / 8 + 1) (h31 : size < 2 ^ 31) :
    (∃ msg, malloc extending h size g = .error (.err msg)) ∨
      ∃ p h', malloc extending h size g = .ok (p, h') ∧
        Whole n h' (if p = 0 then live else (p, size) :: live) ∧
        ∀ e ∈ live, ∀ i < e.2, h'.mem (e.1 + i) = h.mem (e.1 + i) := by
  rcases hw with ⟨hf,rfl⟩ | ⟨bs,hs,ht⟩
  · refine (hf.malloc size g).imp id ?_
    rintro ⟨h',heq,hs'⟩
    obtain ⟨p,h'',hok,hw,-⟩ := malloc_tracked (g := g) hn hn2 (hs' n) Tracks.nil hsize h31
    exact ⟨p,h'',heq.trans hok,hw,fun e he => (by cases he)⟩
  · obtain ⟨p,h',hok,hw,hdata⟩ := malloc_tracked (g := g) hn hn2 hs ht hsize h31
    exact .inr ⟨p,h',hok,hw,fun e he i hi => hdata _ (ht.inData he hi)⟩

theorem Whole.free (hn : 1 ≤ n) (hw : Whole n h live) (hp : (p, size) ∈ live)
    (hne : p ≠ h.heaptop) :
    ∃ h', free h p = .ok h' ∧ Whole n h' (live.filter (·.1 ≠ p)) ∧
      ∀ e ∈ live, e.1 ≠ p → ∀ i < e.2, h'.mem (e.1 + i) = h.mem (e.1 + i) := by
  rcases hw with ⟨-,rfl⟩ | ⟨bs,hs,ht⟩
  · cases hp
  obtain ⟨a,b,rfl,hat,huse,hsz⟩ := ht.block p size hp
  have hend := at_bounds hat
  rw [← hs.top] at hend
  obtain ⟨xs,ys,rfl,rfl⟩ := at_split.mp hat
  obtain ⟨h',bs',hok,hfreed⟩ := free_packed hn hs huse (by omega)
  refine ⟨h',hok,.inr ⟨bs',hfreed.packed,ht.drop hfreed⟩,fun f hf hne i hi => ?_⟩
  refine hfreed.data _ (ht.inData hf hi) ?_
  obtain ⟨c,d,hfc,hcat,-,hfsz⟩ := ht.block f.1 f.2 hf
  rcases at_disjoint hat hcat with ⟨rfl,-⟩ | hx | hx
  · exact absurd hfc hne
  · omega
  · omega

theorem Chain.congr_headers {m m' : Bytes.Mem} {a p : Nat} (hc : Chain m a p bs)
    (hm : ∀ c b, At Blk.bytes a bs c b → getHeader m' c = getHeader m c) : Chain m' a p bs := by
  induction bs generalizing a p with
  | nil => trivial
  | cons b bs ih =>
    exact ⟨(hm a b (.inl ⟨rfl,rfl⟩)).trans hc.1,ih hc.2 fun c d hcd => hm c d (.inr hcd)⟩

theorem Whole.write {off : Nat} {v : UInt8} (hn : 1 ≤ n) (hw : Whole n h live)
    (hp : (p, size) ∈ live) (hoff : off < size) :
    Whole n { h with mem := Function.update h.mem (p + off) v } live := by
  rcases hw with ⟨-,rfl⟩ | ⟨bs,hs,ht⟩
  · cases hp
  obtain ⟨a,b,rfl,hat,huse,hsz⟩ := ht.block p size hp
  refine .inr ⟨bs,⟨⟨hs.base_pos,hs.aligned,hs.top,hs.top_lt,hs.brk,?_,hs.units⟩,
    hs.coalesced⟩,ht⟩
  refine hs.chain.congr_headers fun c d hcd => getHeader_congr fun y hlo hhi => ?_
  have h1d := Blk.bytes_ge (hs.nonempty hn d (at_mem hcd))
  refine Function.update_of_ne ?_ _ _
  rcases at_disjoint hat hcd with ⟨rfl,-⟩ | hy | hy <;> omega

theorem Whole.below_top (hw : Whole 2 h live) (hp : (p, size) ∈ live) : p ≠ h.heaptop := by
  rcases hw with ⟨-,rfl⟩ | ⟨bs,hs,ht⟩
  · cases hp
  obtain ⟨a,b,rfl,hat,-,-⟩ := ht.block p size hp
  have h2b := Blk.bytes_pos (hs.units b (at_mem hat))
  have hend := at_bounds hat
  rw [← hs.top] at hend
  omega

theorem intact_iff_whole (hstop : s.stopped = none) : Intact s ↔ Whole 2 s.heap s.live := by
  simp only [Intact,hstop,Whole,Fresh,and_assoc]

end Whole

theorem Intact.malloc {size : Nat} {g : Grants} (hi : Intact s) (hstop : s.stopped = none)
    (h1 : 1 ≤ size) (h31 : size < 2 ^ 31) :
    Intact (s.malloc size g) ∧ Untouched s (s.malloc size g) (.malloc size g) := by
  rcases ((intact_iff_whole hstop).mp hi).malloc (g := g) (by decide) (by decide)
    (show 2 ≤ (size + 7) / 8 + 1 by omega) h31 with ⟨msg,herr⟩ | ⟨p,h',hok,hw,hdata⟩
  · unfold Client.malloc
    rw [herr]
    exact ⟨trivial,fun _ _ _ _ => rfl⟩
  · unfold Client.malloc
    rw [hok]
    refine ⟨(intact_iff_whole ?_).mpr hw,hdata⟩
    exact hstop

theorem mem_of_any {live : List (Nat × Nat)} {p : Nat} (hp : live.any (·.1 = p) = true) :
    ∃ size, (p, size) ∈ live := by
  obtain ⟨e,he,heq⟩ := List.any_eq_true.mp hp
  exact ⟨e.2,by rw [← of_decide_eq_true heq]; exact he⟩

theorem mem_of_any_write {live : List (Nat × Nat)} {p off : Nat}
    (hp : (live.any fun e => e.1 = p ∧ off < e.2) = true) :
    ∃ size, (p, size) ∈ live ∧ off < size := by
  obtain ⟨e,he,heq⟩ := List.any_eq_true.mp hp
  obtain ⟨hep,hlt⟩ := of_decide_eq_true heq
  exact ⟨e.2,by rw [← hep]; exact he,hlt⟩

theorem Intact.free {p : Nat} (hi : Intact s) (hstop : s.stopped = none)
    (hp : s.live.any (·.1 = p) = true) :
    Intact (s.free p) ∧ Untouched s (s.free p) (.free p) := by
  obtain ⟨size,hp⟩ := mem_of_any hp
  have hw := (intact_iff_whole hstop).mp hi
  obtain ⟨h',hok,hw',hdata⟩ := hw.free (by decide) hp (hw.below_top hp)
  unfold Client.free
  rw [hok]
  refine ⟨(intact_iff_whole ?_).mpr hw',hdata⟩
  exact hstop

theorem Intact.step {op : HeapOp} (hi : Intact s) (hstep : s.step op = some s') :
    Intact s' ∧ Untouched s s' op := by
  unfold Client.step at hstep
  obtain ⟨hstop,hstep⟩ := Option.ite_none_left_eq_some.mp hstep
  rw [not_not] at hstop
  cases op with
  | malloc size g =>
    dsimp only at hstep
    split at hstep <;> rename_i hsz
    · cases hstep
      exact hi.malloc hstop hsz.1 hsz.2
    · cases hstep
  | free p =>
    dsimp only at hstep
    split at hstep <;> rename_i hp
    · cases hstep
      exact hi.free hstop hp
    · cases hstep
  | write p off v =>
    dsimp only at hstep
    split at hstep <;> rename_i hp
    · cases hstep
      obtain ⟨size,hp,hoff⟩ := mem_of_any_write hp
      have hw := ((intact_iff_whole hstop).mp hi).write (v := v) (by decide) hp hoff
      refine ⟨(intact_iff_whole ?_).mpr hw,trivial⟩
      exact hstop
    · cases hstep

end Steps

theorem intact_along {mem : Bytes.Mem} {brk : Nat} (hbrk : 0 < brk) (hlt : brk < 2 ^ 32)
    {ops : List HeapOp} {s : Client}
    (hrun : Run.exec Client.step (Client.boot mem brk) ops = some s) : Intact s := by
  have hboot : Intact (Client.boot mem brk) := Or.inl ⟨rfl,rfl,hbrk,hlt,rfl⟩
  exact Run.invariant (P := fun _ _ => True) (fun _ _ _ hi _ hstep => (hi.step hstep).1) hboot
    (Run.along_of_forall fun _ _ => trivial) hrun

theorem user_heap_along {mem : Bytes.Mem} {brk : Nat} (hbrk : 0 < brk) (hlt : brk < 2 ^ 32)
    {ops : List HeapOp} {s : Client}
    (hrun : Run.exec Client.step (Client.boot mem brk) ops = some s) :
    (∀ msg args, s.stopped ≠ some (.errx msg args)) ∧ s.stopped ≠ some .hang ∧
      (s.stopped = none → s.heap.heapbase = 0 ∧ s.live = [] ∨
        ∃ bs, Sound s.heap bs ∧ LiveBlocks s.heap.heapbase bs s.live) ∧
      ∀ op s', s.step op = some s' → Untouched s s' op := by
  have hi := intact_along hbrk hlt hrun
  refine ⟨fun msg args heq => ?_,fun heq => ?_,fun hstop => ?_,fun op s' hstep =>
    (hi.step hstep).2⟩
  · simp only [Intact,heq] at hi
  · simp only [Intact,heq] at hi
  · simp only [Intact,hstop] at hi
    rcases hi with ⟨hbase,-,-,-,hlive⟩ | ⟨bs,hs,ht⟩
    · exact .inl ⟨hbase,hlive⟩
    · exact .inr ⟨bs,hs,ht.liveBlocks hs.aligned hs.units⟩

def twoBlocks : List HeapOp :=
  [.malloc 10 ⟨true, true, true⟩, .malloc 20 ⟨true, true, true⟩, .free 0x400010,
    .write 0x400028 19 7]

theorem user_heap_two_blocks :
    ∃ s, Run.exec Client.step (Client.boot (fun _ => 0) 0x400004) twoBlocks = some s ∧
      s.live = [(0x400028, 20)] ∧ (∀ msg args, s.stopped ≠ some (.errx msg args)) ∧
      ∃ bs, Sound s.heap bs ∧ LiveBlocks s.heap.heapbase bs s.live := by
  have hview : ((Run.exec Client.step (Client.boot (fun _ => 0) 0x400004) twoBlocks).map
      fun s => (s.live, s.stopped, s.heap.heapbase)) =
      some ([(0x400028, 20)], none, 0x400008) := by
    decide +kernel
  obtain ⟨s,hs,heq⟩ := Option.map_eq_some_iff.mp hview
  simp only [Prod.mk.injEq] at heq
  obtain ⟨hlive,hstop,hbase⟩ := heq
  obtain ⟨herrx,-,hsound,-⟩ := user_heap_along (by decide) (by decide) hs
  refine ⟨s,hs,hlive,herrx,(hsound hstop).resolve_left fun h0 => ?_⟩
  rw [h0.1] at hbase
  cases hbase

end OS161.Libc
