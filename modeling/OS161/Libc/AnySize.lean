import OS161.Libc.UserHeap

namespace OS161.Libc

open Layout

def Client.stepAny (s : Client) : HeapOp → Option Client
  | .malloc size grants =>
    if s.stopped = none ∧ size < 2 ^ 31 then some (s.malloc size grants) else none
  | op => s.step op

section
variable {s s' : Client}

theorem Whole.step_malloc {size : Nat} {g : Grants} (hw : Whole 1 s.heap s.live)
    (h31 : size < 2 ^ 31) (hstop : (s.malloc size g).stopped = none) :
    Whole 1 (s.malloc size g).heap (s.malloc size g).live := by
  rcases hw.malloc (g := g) (Nat.le_refl 1) (by decide) (Nat.le_add_left 1 _) h31 with
    ⟨msg,herr⟩ | ⟨p,h',hok,hw',-⟩
  · unfold Client.malloc at hstop
    rw [herr] at hstop
    cases hstop
  · unfold Client.malloc
    rw [hok]
    exact hw'

theorem Whole.free_top {h : Heap} {live : List (Nat × Nat)} {p size : Nat} (hw : Whole 1 h live)
    (hp : (p, size) ∈ live) (htop : p = h.heaptop) :
    Libc.free h p = .error (.errx "free: Invalid pointer %p freed (out of range)" [p]) := by
  rcases hw with ⟨-,rfl⟩ | ⟨bs,hs,-⟩
  · cases hp
  · rw [htop]
    exact free_at_top hs.base_pos (by rw [hs.top]; exact Nat.le_add_right _ _)

theorem Whole.step_free {p : Nat} (hw : Whole 1 s.heap s.live)
    (hp : s.live.any (·.1 = p) = true) (hstop : (s.free p).stopped = none) :
    Whole 1 (s.free p).heap (s.free p).live := by
  obtain ⟨size,hp⟩ := mem_of_any hp
  by_cases htop : p = s.heap.heaptop
  · unfold Client.free at hstop
    rw [hw.free_top hp htop] at hstop
    cases hstop
  · obtain ⟨h',hok,hw',-⟩ := hw.free (Nat.le_refl 1) hp htop
    unfold Client.free
    rw [hok]
    exact hw'

theorem whole_stepAny {op : HeapOp} (hw : s.stopped = none → Whole 1 s.heap s.live)
    (hstep : s.stepAny op = some s') (hstop' : s'.stopped = none) : Whole 1 s'.heap s'.live := by
  cases op with
  | malloc size g =>
    unfold Client.stepAny at hstep
    dsimp only at hstep
    split at hstep <;> rename_i hsz
    · cases hstep
      exact (hw hsz.1).step_malloc hsz.2 hstop'
    · cases hstep
  | free p =>
    unfold Client.stepAny Client.step at hstep
    dsimp only at hstep
    split at hstep <;> rename_i hstop
    · cases hstep
    split at hstep <;> rename_i hp
    · cases hstep
      exact (hw (not_not.mp hstop)).step_free hp hstop'
    · cases hstep
  | write p off v =>
    unfold Client.stepAny Client.step at hstep
    dsimp only at hstep
    split at hstep <;> rename_i hstop
    · cases hstep
    split at hstep <;> rename_i hp
    · cases hstep
      obtain ⟨size,hp,hoff⟩ := mem_of_any_write hp
      exact (hw (not_not.mp hstop)).write (Nat.le_refl 1) hp hoff
    · cases hstep

theorem whole_along {mem : Bytes.Mem} {brk : Nat} (hbrk : 0 < brk) (hlt : brk < 2 ^ 32)
    {ops : List HeapOp} (hrun : Run.exec Client.stepAny (Client.boot mem brk) ops = some s) :
    s.stopped = none → Whole 1 s.heap s.live := by
  have hboot : (Client.boot mem brk).stopped = none →
      Whole 1 (Client.boot mem brk).heap (Client.boot mem brk).live :=
    fun _ => .inl ⟨⟨rfl,rfl,hbrk,hlt⟩,rfl⟩
  exact Run.invariant (I := fun s => s.stopped = none → Whole 1 s.heap s.live)
    (P := fun _ _ => True) (fun _ _ _ hw _ hstep => whole_stepAny hw hstep) hboot
    (Run.along_of_forall fun _ _ => trivial) hrun

theorem free_accepts_iff {mem : Bytes.Mem} {brk : Nat} (hbrk : 0 < brk) (hlt : brk < 2 ^ 32)
    {ops : List HeapOp} (hrun : Run.exec Client.stepAny (Client.boot mem brk) ops = some s)
    (hstop : s.stopped = none) {p size : Nat} (hp : (p, size) ∈ s.live) :
    (∀ msg args, free s.heap p ≠ .error (.errx msg args)) ↔ p ≠ s.heap.heaptop := by
  have hw := whole_along hbrk hlt hrun hstop
  constructor
  · intro hok htop
    exact hok _ _ (hw.free_top hp htop)
  · intro hne msg args herr
    obtain ⟨h',hok,-⟩ := hw.free (Nat.le_refl 1) hp hne
    rw [hok] at herr
    cases herr

end

def zeroThenOne : List HeapOp := [.malloc 0 ⟨true, true, true⟩, .malloc 1 ⟨true, true, true⟩]

theorem free_accepts_zero_below_top :
    ∃ s, Run.exec Client.stepAny (Client.boot (fun _ => 0) 0x400000) zeroThenOne = some s ∧
      (0x400008, 0) ∈ s.live ∧
      ∀ msg args, free s.heap 0x400008 ≠ .error (.errx msg args) := by
  have hview : ((Run.exec Client.stepAny (Client.boot (fun _ => 0) 0x400000) zeroThenOne).map
      fun s => (s.live, s.stopped, s.heap.heaptop)) =
      some ([(0x400010, 1),(0x400008, 0)], none, 0x400018) := by
    decide +kernel
  obtain ⟨s,hs,heq⟩ := Option.map_eq_some_iff.mp hview
  simp only [Prod.mk.injEq] at heq
  obtain ⟨hlive,hstop,htop⟩ := heq
  have hp : (0x400008, 0) ∈ s.live := by
    rw [hlive]
    decide
  refine ⟨s,hs,hp,(free_accepts_iff (by decide) (by decide) hs hstop hp).mpr ?_⟩
  rw [htop]
  decide

theorem free_refuses_zero_at_top :
    ∃ s, Run.exec Client.stepAny (Client.boot (fun _ => 0) 0x400000)
        [.malloc 0 ⟨true, true, true⟩] = some s ∧
      s.live = [(0x400008, 0)] ∧ s.stopped = none ∧
      free s.heap 0x400008 =
        .error (.errx "free: Invalid pointer %p freed (out of range)" [0x400008]) := by
  have hview : ((Run.exec Client.stepAny (Client.boot (fun _ => 0) 0x400000)
      [.malloc 0 ⟨true,true,true⟩]).map
      fun s => (s.live, s.stopped, s.heap.heaptop, s.heap.heapbase)) =
      some ([(0x400008, 0)], none, 0x400008, 0x400000) := by
    decide +kernel
  obtain ⟨s,hs,heq⟩ := Option.map_eq_some_iff.mp hview
  simp only [Prod.mk.injEq] at heq
  obtain ⟨hlive,hstop,htop,hbase⟩ := heq
  refine ⟨s,hs,hlive,hstop,?_⟩
  have herr := free_at_top (h := s.heap) (by rw [hbase]; decide) (by rw [hbase,htop]; decide)
  rw [htop] at herr
  exact herr

section Malloc
variable {sbrk sbrk' : Sbrk} {h : Heap} {bs : List Blk} {size start : Nat} {g : Grants}

def Serves (sbrk : Sbrk) (h : Heap) (size : Nat) (g : Grants) : Prop :=
  ∃ p h' bs', malloc sbrk h size g = .ok (p, h') ∧ Laid 1 h' bs' ∧
    (p = 0 ∨ ∃ a b, At Blk.bytes h'.heapbase bs' a b ∧ b.inuse = true ∧ p = a + 8 ∧
      size + 8 ≤ b.bytes ∧ p + size ≤ h'.heaptop)

theorem Laid.block_lt (hl : Laid 1 h bs) {a : Nat} {b : Blk}
    (hat : At Blk.bytes h.heapbase bs a b) : a + b.bytes ≤ h.heaptop ∧ b.bytes + 8 ≤ 2 ^ 32 := by
  have hend := at_bounds hat
  have hbase := hl.base_pos
  have hal := hl.aligned
  have hlt := hl.top_lt
  rw [← hl.top] at hend
  exact ⟨hend.2,by omega⟩

theorem Laid.top_mod (hl : Laid 1 h bs) : h.heaptop % 8 = 0 := by
  have := span_mod bs
  have := hl.aligned
  have := hl.top
  omega

theorem serves_of_null {h' : Heap} (hok : malloc sbrk h size g = .ok (0, h'))
    (hl : Laid 1 h' bs) : Serves sbrk h size g := ⟨0,h',bs,hok,hl,.inl rfl⟩

theorem not_serves_of_pointer {p : Nat} {h' : Heap} (hok : malloc sbrk h size g = .ok (p, h'))
    (hp : p ≠ 0) (hbig : 2 ^ 32 < size + 16) : ¬ Serves sbrk h size g := by
  rintro ⟨p',h'',bs',hok',hl,hp'⟩
  rw [hok] at hok'
  cases hok'
  rcases hp' with hp' | ⟨a,b,hat,-,-,hsz,-⟩
  · exact hp hp'
  · have := (hl.block_lt hat).2
    omega

theorem serves_small (hl : Laid 1 h bs) (hsz : size + 16 ≤ 2 ^ 32) : Serves extending h size g := by
  rcases malloc_laid size g (Nat.le_refl 1) (by decide) hl (roundUp_eq size (by omega))
    (Nat.le_add_left 1 _) (by omega) (by omega) with ⟨-,hnull⟩ | ⟨-,a,h',bs',hok,hgain⟩
  · exact serves_of_null hnull hl
  · obtain ⟨b,huse,hroom,hat⟩ := hgain.gained
    have hab : At Blk.bytes h'.heapbase bs' a b := by
      rw [hgain.base]
      exact (hat a b huse).mpr (.inr ⟨rfl,rfl⟩)
    have hend := (hgain.laid.block_lt hab).1
    exact ⟨a + 8,h',bs',hok,hgain.laid,.inr ⟨a,b,hab,huse,rfl,hroom,by omega⟩⟩

theorem mallocExtend_nothing (hl : Laid 1 h bs) (prev : Nat) :
    g.grow = false ∧ mallocExtend extending h (2 ^ 32 - 8) prev g = .ok (0, h) ∨
      g.grow = true ∧ ∃ h', mallocExtend extending h (2 ^ 32 - 8) prev g = .ok (u32 (h.heaptop + 8), h') ∧
        Laid 1 h' bs := by
  have hzero : u32 (((2 ^ 32 - 8 : Nat) : Int) + (mblocksize : Nat)) = 0 := by decide
  have hlt := hl.top_lt
  unfold mallocExtend mallocSbrk extending
  rw [hzero]
  cases hg : g.grow with
  | false =>
    rw [if_neg (fun hc => Bool.false_ne_true hc.1)]
    exact .inl ⟨rfl,rfl⟩
  | true =>
    rw [if_pos ⟨rfl,by rw [hl.brk]; exact hlt⟩]
    dsimp only [bind,Except.bind]
    rw [if_neg (not_not_intro hl.brk)]
    rw [hl.brk]
    refine .inr ⟨rfl,_,rfl,hl.base_pos,hl.aligned,?_,?_,?_,?_,hl.units⟩
    · exact (u32_of_nat hlt).trans hl.top
    · exact (u32_of_nat hlt).trans_lt hlt
    · exact (u32_of_nat hlt).symm
    · exact hl.chain.congr (hl.nonempty (Nat.le_refl 1)) fun x _ hx =>
        setHeader_of_outside (.inl (by rw [hl.top]; exact hx))

theorem serves_nothing_iff (hl : Laid 1 h bs) (hlo : 2 ^ 32 < size + 16) (hhi : size + 8 ≤ 2 ^ 32) :
    Serves extending h size g ↔ g.grow = false ∨ h.heaptop + 8 = 2 ^ 32 := by
  have hround : roundUp size = 2 ^ 32 - 8 := by
    rw [roundUp_eq size hhi]
    omega
  have hlt := hl.top_lt
  rcases malloc_initialised extending size g hl (Nat.le_refl 1) with
    ⟨xs,b,ys,rfl,-,hfit,-⟩ | ⟨-,heq⟩
  · have hat : At Blk.bytes h.heapbase (xs ++ b :: ys) (h.heapbase + span Blk.bytes xs) b :=
      at_append.mpr (.inr (.inl ⟨rfl,rfl⟩))
    have := (hl.block_lt hat).2
    omega
  rw [hround] at heq
  rcases mallocExtend_nothing (g := g) hl (lastUnits 0 bs) with ⟨hg,hok⟩ | ⟨hg,h',hok,hl'⟩
  · exact iff_of_true (serves_of_null (heq.trans hok) hl) (.inl hg)
  · by_cases htop : h.heaptop + 8 = 2 ^ 32
    · have hp : u32 ((h.heaptop : Int) + 8) = 0 := by
        unfold u32
        omega
      rw [hp] at hok
      exact iff_of_true (serves_of_null (heq.trans hok) hl') (.inr htop)
    · have hp : u32 ((h.heaptop : Int) + 8) ≠ 0 := by
        unfold u32
        omega
      refine iff_of_false (not_serves_of_pointer (heq.trans hok) hp hlo) ?_
      rintro (hg' | htop')
      · rw [hg] at hg'
        cases hg'
      · exact htop htop'

theorem refuses_zero_iff (hl : Laid 1 h bs) : Refuses h bs 0 g ↔
    (∀ b ∈ bs, b.inuse = true) ∧ (g.grow = false ∨ h.heaptop + 8 = 2 ^ 32) := by
  have hmod := hl.top_mod
  have hlt := hl.top_lt
  refine and_congr (forall₂_congr fun b hb => ?_) ?_
  · have := Blk.bytes_ge (hl.units b hb)
    exact or_iff_left (by omega)
  · cases g.grow with
    | false => simp
    | true =>
      simp only [true_and,Bool.true_eq_false,false_or]
      omega

theorem serves_wrapped_iff (hl : Laid 1 h bs) (hlo : 2 ^ 32 < size + 8) (hhi : size < 2 ^ 32) :
    Serves extending h size g ↔
      (∀ b ∈ bs, b.inuse = true) ∧ (g.grow = false ∨ h.heaptop + 8 = 2 ^ 32) := by
  have hround : roundUp size = 8 * 0 := by
    unfold roundUp u32 mblocksize
    omega
  rw [← refuses_zero_iff hl]
  rcases malloc_laid 0 g (Nat.le_refl 1) (by decide) hl hround (Nat.le_refl 1) (by decide)
    (Nat.le_refl 0) with ⟨hr,hnull⟩ | ⟨hr,a,h',bs',hok,-⟩
  · exact iff_of_true (serves_of_null hnull hl) hr
  · exact iff_of_false (not_serves_of_pointer hok (by omega) (by omega)) hr

theorem adjusting_eq {n : Nat} (hstart : start ≤ h.brk) (hn : n < 2 ^ 31) (grant : Bool) :
    adjusting start h n grant = extending h n grant := by
  have hoff : offT n = n := offT_of_lt (by omega) (by omega)
  unfold adjusting extending
  rw [hoff]
  dsimp only
  by_cases hlt : h.brk + n < 2 ^ 32
  · simp only [show (start : Int) ≤ h.brk + n by omega,show (h.brk : Int) + n < 2 ^ 32 by omega,hlt,
      and_true]
    rfl
  · rw [if_neg fun hc => hlt (by omega),if_neg fun hc => hlt hc.2]

theorem serves_congr (hbase : h.heapbase ≠ 0)
    (hs : sbrk h (u32 (roundUp size + mblocksize)) g.grow =
      sbrk' h (u32 (roundUp size + mblocksize)) g.grow) :
    Serves sbrk h size g ↔ Serves sbrk' h size g := by
  have heq : malloc sbrk h size g = malloc sbrk' h size g := by
    unfold malloc mallocExtend mallocSbrk
    simp only [if_neg hbase,ok_bind,hs]
  unfold Serves
  rw [heq]

theorem serves_adjusting_iff (hl : Laid 1 h bs) (hstart : start ≤ h.heapbase)
    (hn : u32 (roundUp size + mblocksize) < 2 ^ 31) :
    Serves (adjusting start) h size g ↔ Serves extending h size g := by
  refine serves_congr (Nat.ne_of_gt hl.base_pos) (adjusting_eq ?_ hn _)
  rw [hl.brk,hl.top]
  omega

theorem mallocExtend_lowers {n : Nat} (hl : Laid 1 h bs) (hlo : 2 ^ 31 ≤ n + 8)
    (hhi : n + 8 < 2 ^ 32) (hu : h.heaptop ≤ 2 ^ 31) (prev : Nat) :
    (g.grow = true ∧ start + 2 ^ 32 ≤ h.heaptop + (n + 8) → ∃ h',
      mallocExtend (adjusting start) h n prev g = .ok (h.heaptop + 8, h') ∧
        h'.heaptop < h.heaptop) ∧
    (¬ (g.grow = true ∧ start + 2 ^ 32 ≤ h.heaptop + (n + 8)) →
      mallocExtend (adjusting start) h n prev g = .ok (0, h)) := by
  have hsum : u32 ((n : Int) + (mblocksize : Nat)) = n + 8 := u32_of_nat (n := n + 8) hhi
  have hoff : offT ((n + 8 : Nat) : Int) = n + 8 - 2 ^ 32 := by
    unfold offT
    rw [Int.bmod_def]
    split <;> omega
  unfold mallocExtend mallocSbrk adjusting
  rw [hsum,hoff,hl.brk]
  constructor
  · rintro ⟨hg,hstart⟩
    rw [if_pos ⟨hg,by omega,by omega⟩]
    dsimp only [bind,Except.bind]
    rw [if_neg (not_not_intro rfl)]
    refine ⟨_,congrArg Except.ok (Prod.ext (u32_of_nat (n := h.heaptop + 8) (by omega)) rfl),?_⟩
    dsimp only
    unfold u32
    omega
  · intro hno
    rw [if_neg fun hc => hno ⟨hc.1,by omega⟩]
    rfl

-- No block of a heap in user space is as large as these sizes.
theorem serves_lowered_iff (hl : Laid 1 h bs) (hu : h.heaptop ≤ 2 ^ 31) (hlo : 2 ^ 31 < size + 16)
    (hhi : size + 16 ≤ 2 ^ 32) : Serves (adjusting start) h size g ↔
      g.grow = false ∨ h.heaptop + (roundUp size + 8) < start + 2 ^ 32 := by
  have hround := roundUp_eq size (by omega)
  rcases malloc_initialised (adjusting start) size g hl (Nat.le_refl 1) with
    ⟨xs,b,ys,rfl,-,hfit,-⟩ | ⟨-,heq⟩
  · have hat : At Blk.bytes h.heapbase (xs ++ b :: ys) (h.heapbase + span Blk.bytes xs) b :=
      at_append.mpr (.inr (.inl ⟨rfl,rfl⟩))
    have hend := (hl.block_lt hat).1
    have hbase := hl.base_pos
    omega
  obtain ⟨hdone,hrefused⟩ := @mallocExtend_lowers h bs start g (roundUp size) hl (by omega)
    (by omega) hu (lastUnits 0 bs)
  by_cases hg : g.grow = true ∧ start + 2 ^ 32 ≤ h.heaptop + (roundUp size + 8)
  · obtain ⟨h',hok,htop⟩ := hdone hg
    refine iff_of_false ?_ (not_or.mpr ⟨by rw [hg.1]; decide,Nat.not_lt.mpr hg.2⟩)
    rintro ⟨p,h'',bs',hok',-,hp⟩
    cases (heq.trans hok).symm.trans hok'
    rcases hp with hp | ⟨a,b,-,-,-,-,hp⟩ <;> omega
  · refine iff_of_true (serves_of_null (heq.trans (hrefused hg)) hl) ?_
    cases hgrow : g.grow with
    | false => exact .inl rfl
    | true => exact .inr (Nat.lt_of_not_le fun hle => hg ⟨hgrow,hle⟩)

theorem mallocInit_adjusting (hstart : start ≤ h.brk) :
    mallocInit (adjusting start) h g = mallocInit extending h g := by
  unfold mallocInit mallocAlign
  rw [adjusting_eq hstart (by decide)]
  split
  · rfl
  split
  · rfl
  · rename_i x h' hx
    have hbrk : start ≤ h'.brk := by
      obtain ⟨-,hx⟩ := Option.ite_none_right_eq_some.mp hx
      cases hx
      exact hstart
    have hal : mblocksize - x % mblocksize < 2 ^ 31 := by
      unfold mblocksize
      omega
    simp only [adjusting_eq (h := { h' with heapbase := x, heaptop := x }) hbrk hal]

theorem malloc_serves_iff (hsize : size < 2 ^ 32) :
    (∀ bs, Laid 1 h bs → start ≤ h.heapbase → h.heaptop ≤ 2 ^ 31 →
      (Serves (adjusting start) h size g ↔ size ≤ 2 ^ 31 - 16 ∨
        size ≤ 2 ^ 32 - 16 ∧ h.heaptop + (roundUp size + 8) < start + 2 ^ 32 ∨
        g.grow = false ∧ (size ≤ 2 ^ 32 - 8 ∨ ∀ b ∈ bs, b.inuse = true))) ∧
    (Fresh h → start ≤ h.brk → h.brk ≤ 2 ^ 31 →
      (∃ msg, malloc (adjusting start) h size g = .error (.err msg)) ∨
      ∃ h', malloc (adjusting start) h size g = malloc (adjusting start) h' size g ∧
        Laid 1 h' [] ∧ start ≤ h'.heapbase ∧ h'.heaptop ≤ 2 ^ 31) := by
  refine ⟨fun bs hl hstart hu => ?_,fun ⟨hbase,htop,hpos,hlt⟩ hstart hu => ?_⟩
  rotate_left
  · have hinit := @mallocInit_adjusting h start g hstart
    rcases mallocInit_spec (g := g) hbase htop hpos hlt with ⟨msg,herr⟩ | ⟨h',hok,hs,hle,hup⟩
    · exact .inl ⟨msg,malloc_err hbase (hinit.trans herr)⟩
    · have hl := (hs 1).toLaid
      have htop' : h'.heaptop = h'.heapbase := hl.top
      have hal := hl.aligned
      exact .inr ⟨h',malloc_of_init hbase (hinit.trans hok) (Nat.ne_of_gt hl.base_pos),hl,by omega,
        by omega⟩
  have hnear : h.heaptop + 8 ≠ 2 ^ 32 := by omega
  by_cases hsmall : size ≤ 2 ^ 31 - 16
  · refine iff_of_true ((serves_adjusting_iff hl hstart ?_).mpr (serves_small hl (by omega)))
      (.inl hsmall)
    rw [roundUp_eq size (by omega)]
    unfold u32 mblocksize
    omega
  by_cases hlow : size ≤ 2 ^ 32 - 16
  · rw [serves_lowered_iff hl hu (by omega) (by omega)]
    simp only [hsmall,hlow,show size ≤ 2 ^ 32 - 8 by omega,false_or,true_and,true_or,and_true]
    exact or_comm
  have hn : u32 (roundUp size + mblocksize) < 2 ^ 31 := by
    unfold roundUp u32 mblocksize
    omega
  rw [serves_adjusting_iff hl hstart hn]
  by_cases hmid : size ≤ 2 ^ 32 - 8
  · rw [serves_nothing_iff hl (by omega) (by omega)]
    simp only [hsmall,hlow,hmid,hnear,false_and,false_or,or_false,true_or,and_true]
  · rw [serves_wrapped_iff hl (by omega) hsize]
    simp only [hsmall,hlow,hmid,hnear,false_and,false_or,or_false]
    exact and_comm

end Malloc

def emptyHeap : Heap := ⟨fun _ => 0, 0x400000, 0x400000, 0x400000⟩

theorem emptyHeap_laid : Laid 1 emptyHeap [] :=
  (packed_nil (by decide) (by decide) rfl (by decide) rfl).toLaid

-- The second request is refused: it would take the break below its start.
theorem malloc_serves_hundred :
    Laid 1 emptyHeap [] ∧ Serves (adjusting 0x400000) emptyHeap 100 ⟨true, true, true⟩ ∧
      Serves (adjusting 0x400000) emptyHeap 0xffffffe0 ⟨true, true, true⟩ :=
  ⟨emptyHeap_laid,
    ((malloc_serves_iff (by decide)).1 [] emptyHeap_laid (by decide) (by decide)).mpr
      (.inl (by decide)),
    ((malloc_serves_iff (by decide)).1 [] emptyHeap_laid (by decide) (by decide)).mpr
      (.inr (.inl (by decide)))⟩

theorem malloc_wraps_to_nothing :
    ((∃ h', malloc (adjusting 0x400000) emptyHeap 0xffffffff ⟨true, true, true⟩ =
        .ok (0x400008, h') ∧ h'.heaptop = 0x400008) ∧
      ¬ Serves (adjusting 0x400000) emptyHeap 0xffffffff ⟨true, true, true⟩) ∧
    ∃ p h bs h', malloc (adjusting 0x400000) emptyHeap 16 ⟨true, true, true⟩ = .ok (p, h) ∧
      Laid 1 h bs ∧
      malloc (adjusting 0x400000) h 0xffffffe0 ⟨true, true, true⟩ = .ok (0x400020, h') ∧
      h'.heaptop = 0x400000 ∧ ¬ Serves (adjusting 0x400000) h 0xffffffe0 ⟨true, true, true⟩ := by
  have hall : ((malloc (adjusting 0x400000) emptyHeap 0xffffffff ⟨true,true,true⟩).toOption.map
      fun r => (r.1, r.2.heaptop)) = some (0x400008, 0x400008) := by
    decide +kernel
  have htwo : ((malloc (adjusting 0x400000) emptyHeap 16 ⟨true,true,true⟩).toOption.bind fun r =>
      (malloc (adjusting 0x400000) r.2 0xffffffe0 ⟨true,true,true⟩).toOption.map fun r' =>
        (r.2.heaptop, r'.1, r'.2.heaptop)) = some (0x400018, 0x400020, 0x400000) := by
    decide +kernel
  refine ⟨?_,?_⟩
  · obtain ⟨⟨p,h'⟩,hr,heq⟩ := Option.map_eq_some_iff.mp hall
    obtain ⟨rfl,htop⟩ := Prod.mk.inj heq
    have hok := ok_of_toOption hr
    exact ⟨⟨h',hok,htop⟩,not_serves_of_pointer hok (by decide) (by decide)⟩
  · obtain ⟨⟨p,h⟩,hr,hview⟩ := Option.bind_eq_some_iff.mp htwo
    obtain ⟨⟨q,h'⟩,hr',heq⟩ := Option.map_eq_some_iff.mp hview
    obtain ⟨htop,heq⟩ := Prod.mk.inj heq
    obtain ⟨rfl,htop'⟩ := Prod.mk.inj heq
    have hsixteen : Serves (adjusting 0x400000) emptyHeap 16 ⟨true,true,true⟩ :=
      (serves_adjusting_iff emptyHeap_laid (by decide) (by decide)).mpr
        (serves_small emptyHeap_laid (by decide))
    obtain ⟨p₁,h₁,bs,hok,hl,-⟩ := hsixteen
    cases (ok_of_toOption hr).symm.trans hok
    have htop : h.heaptop = 0x400018 := htop
    refine ⟨p,h,bs,h',hok,hl,ok_of_toOption hr',htop',fun hserves => ?_⟩
    rw [serves_lowered_iff hl (by rw [htop]; decide) (by decide) (by decide),htop] at hserves
    exact absurd hserves (by decide)

end OS161.Libc
