import OS161.Sfs.Fault

namespace OS161

namespace Uio

structure Words (uio : Uio) : Prop where
  resid : uio.resid < 2 ^ 32
  offset : offT uio.offset = uio.offset

structure Advanced (uio uio' : Uio) (c : Nat) : Prop where
  segflg : uio'.segflg = uio.segflg
  space : uio'.space = uio.space
  rw_eq : uio'.rw = uio.rw
  base : uio'.iovBase = uio.iovBase + c
  resid : uio'.resid + c = uio.resid
  offset : uio'.offset = offT (uio.offset + c)
  buf : ∀ k, k < uio.iovBase ∨ uio.iovBase + c ≤ k → uio'.iovBuf k = uio.iovBuf k

def Progress (n : Nat) (r : Option Errno) (uio uio' : Uio) : Prop :=
  ∃ c ≤ n, uio.Advanced uio' c ∧ (r = none → c = n)

section Advanced
variable {cur : Curthread} {uio uio₁ uio₂ uio' : Uio} {c c' n : Nat} {r : Option Errno}

theorem offT_offT (x : Int) : offT (offT x) = offT x := by
  have h := offT_offT_add x 0
  rwa [Int.add_zero,Int.add_zero] at h

theorem Advanced.words (h : uio.Advanced uio' c) (hw : uio.Words) : uio'.Words := by
  have hres := h.resid
  have hword := hw.resid
  refine ⟨by omega,?_⟩
  rw [h.offset,offT_offT]

theorem Advanced.trans (h : uio.Advanced uio₁ c) (h' : uio₁.Advanced uio₂ c') :
    uio.Advanced uio₂ (c + c') := by
  have hbase := h.base
  have hres := h.resid
  have hres' := h'.resid
  refine ⟨h'.segflg.trans h.segflg,h'.space.trans h.space,h'.rw_eq.trans h.rw_eq,?_,?_,?_,
    fun k hk => ?_⟩
  · rw [h'.base,hbase,Nat.add_assoc]
  · omega
  · rw [h'.offset,h.offset,offT_offT_add,Int.natCast_add,add_assoc]
  · rw [h'.buf k (by omega),h.buf k (by omega)]

theorem Words.stay (hw : uio.Words) : uio.Advanced uio 0 := by
  refine ⟨rfl,rfl,rfl,rfl,rfl,?_,fun _ _ => rfl⟩
  rw [Int.natCast_zero,Int.add_zero,hw.offset]

theorem Words.stop (hw : uio.Words) {e : Errno} : Progress n (some e) uio uio :=
  ⟨0,Nat.zero_le _,hw.stay,fun h => by cases h⟩

theorem Words.idle (hw : uio.Words) : Progress 0 r uio uio :=
  ⟨0,Nat.le_refl _,hw.stay,fun _ => rfl⟩

theorem Advanced.then (h : uio.Advanced uio₁ c) (hp : Progress n r uio₁ uio₂) :
    Progress (c + n) r uio uio₂ := by
  obtain ⟨c',hle,hadv,hall⟩ := hp
  exact ⟨c + c',Nat.add_le_add_left hle c,h.trans hadv,fun hr => by rw [hall hr]⟩

def step (uio : Uio) (buf : Mem) (m : Nat) : Uio :=
  { uio with
    iovBuf := buf
    iovBase := uio.iovBase + m
    iovLen := uio.iovLen - m
    resid := u32 (uio.resid - m)
    offset := offT (uio.offset + m) }

theorem Words.step {buf : Mem} {m : Nat} (hw : uio.Words) (hm : m ≤ uio.resid)
    (hbuf : ∀ k, k < uio.iovBase ∨ uio.iovBase + m ≤ k → buf k = uio.iovBuf k) :
    uio.Advanced (uio.step buf m) m := by
  have hres : u32 ((uio.resid : Int) - m) = uio.resid - m := u32_sub hw.resid hm
  refine ⟨rfl,rfl,rfl,rfl,?_,rfl,hbuf⟩
  dsimp only [Uio.step]
  omega

section
variable (hw : uio.Words) (hn : n ≤ uio.resid)
include hw hn

theorem uiomoveLoop_progress {fuel p : Nat} {ptr ptr' : Mem} (hf : n ≤ fuel)
    (h : uiomoveLoop cur fuel ptr p n uio = .ok (r, ptr', uio')) : Progress n r uio uio' := by
  induction fuel generalizing ptr p n uio with
  | zero =>
    obtain rfl : n = 0 := Nat.le_zero.mp hf
    cases h
    exact hw.idle
  | succ fuel ih =>
    rw [uiomoveLoop] at h
    split at h <;> rename_i hgo
    · dsimp only at h
      split at h <;> rename_i hsize
      · cases h
      · generalize hm : min uio.iovLen n = m at h hsize
        split at h
        · cases h
          exact hw.stop
        · have hnext (buf ptr : Mem)
              (hbuf : ∀ k, k < uio.iovBase ∨ uio.iovBase + m ≤ k → buf k = uio.iovBuf k)
              (h : uiomoveLoop cur fuel ptr (p + m) (n - m) (uio.step buf m) = .ok (r, ptr', uio')) :
              Progress n r uio uio' := by
            have hadv := hw.step (by omega) hbuf
            have hres := hadv.resid
            have hall := hadv.then (ih (hadv.words hw) (by omega) (by omega) h)
            rwa [Nat.add_sub_cancel' (by omega)] at hall
          refine hnext _ _ (fun k hk => ?_) h
          cases uio.rw with
          | read => exact if_neg (by omega)
          | write => rfl
    · obtain rfl : n = 0 := by omega
      cases h
      exact hw.idle

theorem uiomoveAt_progress {p : Nat} {ptr ptr' : Mem}
    (h : uiomoveAt cur ptr p n uio = .ok (r, ptr', uio')) : Progress n r uio uio' := by
  have hloop : uiomoveLoop cur n ptr p n uio = .ok (r, ptr', uio') := by
    unfold uiomoveAt at h
    cases hseg : uio.segflg with
    | sysspace | userspace | userispace =>
      rw [hseg] at h
      exact (bind_ok h).choose_spec.2
  exact uiomoveLoop_progress hw hn (Nat.le_refl n) hloop

theorem uiomovezerosLoop_progress {fuel : Nat} (hf : n ≤ fuel)
    (h : uiomovezerosLoop cur fuel n uio = .ok (r, uio')) : Progress n r uio uio' := by
  induction fuel generalizing n uio with
  | zero =>
    obtain rfl : n = 0 := Nat.le_zero.mp hf
    cases h
    exact hw.idle
  | succ fuel ih =>
    rw [uiomovezerosLoop] at h
    split at h <;> rename_i hgo
    · obtain ⟨⟨r₁,ptr,uio₁⟩,hmv,h⟩ := bind_ok h
      obtain ⟨c,hc,hadv,hall⟩ := uiomoveAt_progress hw (by omega) hmv
      cases r₁ with
      | some e =>
        cases h
        exact ⟨c,by omega,hadv,fun hr => by cases hr⟩
      | none =>
        obtain rfl := hall rfl
        have hres := hadv.resid
        have hrest := hadv.then (ih (hadv.words hw) (by omega) (by omega) h)
        rwa [Nat.add_sub_cancel' (by omega)] at hrest
    · obtain rfl : n = 0 := by omega
      cases h
      exact hw.idle

theorem uiomovezeros_progress (h : uiomovezeros cur n uio = .ok (r, uio')) :
    Progress n r uio uio' := by
  obtain ⟨-,hloop⟩ := assert_bind_ok h
  exact uiomovezerosLoop_progress hw hn (Nat.le_refl n) hloop

end

end Advanced

end Uio

namespace Sfs.Fault

section
variable {cur : Curthread} {w w' : World} {uio uio' : Uio} {r : Option Errno}

theorem lhdIoLoop_progress {sector k i : Nat} {buf : Block} (hw : uio.Words)
    (hk : 512 * k ≤ uio.resid)
    (h : lhdIoLoop cur sector k i buf w uio = .ok (r, w', uio')) :
    Uio.Progress (512 * k) r uio uio' := by
  induction k generalizing i buf w uio with
  | zero =>
    cases h
    exact hw.idle
  | succ k ih =>
    have hnext {buf : Block} {w : World} {uio₁ : Uio} (hadv : uio.Advanced uio₁ 512)
        (h : lhdIoLoop cur sector k (i + 1) buf w uio₁ = .ok (r, w', uio')) :
        Uio.Progress (512 * (k + 1)) r uio uio' := by
      have hres := hadv.resid
      have hrest := hadv.then (ih (hadv.words hw) (by omega) h)
      rwa [Nat.add_comm,← Nat.mul_succ] at hrest
    have hmove {ptr ptr' : Mem} {r₁ : Option Errno} {uio₁ : Uio}
        (hmv : uiomove cur ptr sectsize uio = .ok (r₁, ptr', uio₁)) :
        ∃ c ≤ 512, uio.Advanced uio₁ c ∧ (r₁ = none → c = 512) :=
      Uio.uiomoveAt_progress (n := 512) hw (by omega) hmv
    rw [lhdIoLoop] at h
    split at h
    · obtain ⟨⟨r₁,ptr,uio₁⟩,hmv,h⟩ := bind_ok h
      obtain ⟨c,hc,hadv,hall⟩ := hmove hmv
      cases r₁ with
      | some e =>
        cases h
        exact ⟨c,by omega,hadv,fun hr => by cases hr⟩
      | none =>
        obtain rfl := hall rfl
        obtain ⟨⟨r₂,buf₂,w₂⟩,-,h⟩ := bind_ok h
        cases r₂ with
        | some e =>
          cases h
          exact ⟨512,by omega,hadv,fun hr => by cases hr⟩
        | none => exact hnext hadv h
    · obtain ⟨⟨r₁,buf₁,w₁⟩,-,h⟩ := bind_ok h
      cases r₁ with
      | some e =>
        cases h
        exact hw.stop
      | none =>
        obtain ⟨⟨r₂,ptr,uio₁⟩,hmv,h⟩ := bind_ok h
        obtain ⟨c,hc,hadv,hall⟩ := hmove hmv
        cases r₂ with
        | some e =>
          cases h
          exact ⟨c,by omega,hadv,fun hr => by cases hr⟩
        | none =>
          obtain rfl := hall rfl
          exact hnext hadv h

theorem lhdIo_progress (hw : uio.Words) (h : lhdIo cur w uio = .ok (r, w', uio')) :
    Uio.Progress uio.resid r uio uio' := by
  unfold lhdIo at h
  dsimp only at h
  split at h <;> rename_i hmod
  · cases h
    exact hw.stop
  split at h
  · cases h
    exact hw.stop
  · have hlen : 512 * (uio.resid / sectsize) = uio.resid := by
      unfold sectsize at hmod ⊢
      omega
    have hp := lhdIoLoop_progress hw (Nat.le_of_eq hlen) h
    rwa [hlen] at hp

theorem rwblockRetry_progress {retries : Nat} (hw : uio.Words)
    (h : sfsRwblockRetry (lhdIo cur) retries w uio = .ok (r, w', uio')) :
    Uio.Progress uio.resid r uio uio' := by
  induction retries using Nat.strongRecOn generalizing w uio with
  | ind retries ih =>
    rw [sfsRwblockRetry] at h
    obtain ⟨⟨r₁,w₁,uio₁⟩,hio,h⟩ := bind_ok h
    have hp := lhdIo_progress hw hio
    split at h
    · cases h
    · rename_i heq
      cases heq
      obtain ⟨c,hc,hadv,-⟩ := hp
      cases retries with
      | zero =>
        cases h
        exact ⟨c,hc,hadv,fun hr => by cases hr⟩
      | succ retries =>
        have hrest := hadv.then (ih retries (Nat.lt_succ_self _) (hadv.words hw) h)
        rwa [Nat.add_comm,hadv.resid] at hrest
    · rename_i heq
      cases heq
      cases h
      exact hp

end

structure Stands (x : Nat) (uio : Uio) : Prop where
  offset : uio.offset = x
  low : x < 2 ^ 31
  word : uio.resid < 2 ^ 32

def Transfers (x n : Nat) (r : Option Errno) (uio uio' : Uio) : Prop :=
  ∃ c ≤ n, uio.Advanced uio' c ∧ (r = none → c = n) ∧ (0 < c → x + c ≤ maxBytes)

section Transfers
variable {cur : Curthread} {w w' : World} {sv sv' : Sv} {uio uio₁ uio₂ uio' : Uio} {x c n n' : Nat}
  {r : Option Errno} {e : Errno}

theorem Stands.words (h : Stands x uio) : uio.Words := by
  have hlow := h.low
  refine ⟨h.word,?_⟩
  rw [h.offset]
  exact offT_of_lt (by omega) (by omega)

theorem Stands.advance (h : Stands x uio) (hadv : uio.Advanced uio₁ c)
    (hreach : 0 < c → x + c ≤ maxBytes) : Stands (x + c) uio₁ := by
  have hlow := h.low
  have hword := h.word
  have hres := hadv.resid
  unfold maxBytes at hreach
  refine ⟨?_,by omega,by omega⟩
  rw [hadv.offset,h.offset]
  exact offT_of_lt (by omega) (by omega)

theorem Stands.stop (h : Stands x uio) : Transfers x n (some e) uio uio :=
  ⟨0,Nat.zero_le _,h.words.stay,fun hr => (by cases hr),fun hc => absurd hc (Nat.lt_irrefl 0)⟩

theorem transfers_of_progress (hx : x < maxBytes) (hfit : x % 512 + n ≤ 512)
    (h : Uio.Progress n r uio uio') : Transfers x n r uio uio' := by
  obtain ⟨c,hc,hadv,hall⟩ := h
  unfold maxBytes at hx
  refine ⟨c,hc,hadv,hall,fun _ => ?_⟩
  unfold maxBytes
  omega

theorem bmap_below {fb b : Nat} {doalloc : Bool}
    (h : bmap cur w sv fb doalloc = .ok (.ok b, w', sv')) : fb < 143 := by
  unfold bmap ndirect dbperidb at h
  split at h
  · omega
  · dsimp only at h
    split at h
    · cases h
    · omega

theorem Stands.below {b : Nat} {doalloc : Bool} (hs : Stands x uio)
    (h : bmap cur w sv (u32 (uio.offset.tdiv 512)) doalloc = .ok (.ok b, w', sv')) :
    x < maxBytes := by
  have hfb := bmap_below h
  rw [hs.offset,fileblock_eq hs.low] at hfb
  unfold maxBytes
  omega

theorem partialio_transfers {skip len : Nat} (hs : Stands x uio) (hlen : len ≤ uio.resid)
    (hfit : x % 512 + len ≤ 512)
    (h : partialio cur w sv uio skip len = .ok (r, w', sv', uio')) : Transfers x len r uio uio' := by
  obtain ⟨-,h⟩ := assert_bind_ok h
  obtain ⟨⟨out,w₁,sv₁⟩,hmap,h⟩ := bind_ok h
  cases out with
  | error e =>
    cases h
    exact hs.stop
  | ok b =>
    have hx := hs.below hmap
    obtain ⟨⟨r₁,iobuf,w₂⟩,-,h⟩ := bind_ok h
    cases r₁ with
    | some e =>
      cases h
      exact hs.stop
    | none =>
      obtain ⟨⟨r₂,ptr,uio₁⟩,hmv,h⟩ := bind_ok h
      have hp := transfers_of_progress hx hfit (Uio.uiomoveAt_progress hs.words hlen hmv)
      cases r₂ with
      | some e =>
        cases h
        exact hp
      | none =>
        dsimp only at h
        split at h
        · cases h
          exact hp
        · obtain ⟨⟨r₃,w₃⟩,-,h⟩ := bind_ok h
          cases h
          obtain ⟨c,hc,hadv,hall,hreach⟩ := hp
          exact ⟨c,hc,hadv,fun _ => hall rfl,hreach⟩

theorem restore_advanced {diskoff : Int} (hw : uio.Words) (hres : 512 ≤ uio.resid) (hc : c ≤ 512)
    (h : (Uio.aim uio diskoff).Advanced uio₁ c) :
    uio.Advanced (Uio.restore uio₁ diskoff uio.offset uio.resid) c := by
  have hword := hw.resid
  have hleft : uio₁.resid + c = 512 := h.resid
  refine ⟨h.segflg,h.space,h.rw_eq,h.base,?_,?_,h.buf⟩
  · have hu : u32 ((uio₁.resid : Int) - blocksize + uio.resid) = uio.resid - c := by
      unfold u32 blocksize
      omega
    dsimp only [Uio.restore]
    omega
  · have hoff : uio₁.offset = offT (diskoff + c) := h.offset
    dsimp only [Uio.restore]
    rw [hoff,sub_eq_add_neg,offT_offT_add,add_assoc,offT_offT_add]
    congr 1
    omega

theorem moveBlock_transfers {diskoff : Int} (hs : Stands x uio) (hres : 512 ≤ uio.resid)
    (hx : x < maxBytes) (halign : x % 512 = 0) (hoff : offT diskoff = diskoff)
    (h : (rwblock cur w (Uio.aim uio diskoff) >>= fun out => .ok (out.1, out.2.1, sv,
      Uio.restore out.2.2 diskoff uio.offset uio.resid)) = .ok (r, w', sv', uio')) :
    Transfers x 512 r uio uio' := by
  obtain ⟨⟨r₁,w₁,uio₁⟩,hio,h⟩ := bind_ok h
  have hwords : (Uio.aim uio diskoff).Words := ⟨(by decide : 512 < 2 ^ 32),hoff⟩
  obtain ⟨c,hc,hadv,hall⟩ := rwblockRetry_progress hwords hio
  have hback := restore_advanced hs.words hres hc hadv
  cases h
  exact transfers_of_progress hx (by omega) ⟨c,hc,hback,hall⟩

theorem blockio_transfers (hs : Stands x uio) (hres : 512 ≤ uio.resid) (halign : x % 512 = 0)
    (h : blockio cur w sv uio = .ok (r, w', sv', uio')) : Transfers x 512 r uio uio' := by
  obtain ⟨⟨out,w₁,sv₁⟩,hmap,h⟩ := bind_ok h
  cases out with
  | error e =>
    cases h
    exact hs.stop
  | ok b =>
    have hx := hs.below hmap
    dsimp only at h
    split at h
    · obtain ⟨-,h⟩ := assert_bind_ok h
      obtain ⟨⟨r₁,uio₁⟩,hmv,h⟩ := bind_ok h
      cases h
      exact transfers_of_progress hx (by omega) (Uio.uiomovezeros_progress hs.words hres hmv)
    · obtain ⟨-,h⟩ := assert_bind_ok h
      exact moveBlock_transfers hs hres hx halign (Uio.offT_offT _) h

end Transfers

structure Carries (cur : Curthread) (J : Nat → World → Sv → Uio → Prop) : Prop where
  stands : ∀ y w sv uio, J y w sv uio → Stands y uio
  part : ∀ y w sv uio len r w' sv' uio', J y w sv uio → len ≤ uio.resid → y % 512 + len ≤ 512 →
    partialio cur w sv uio (y % 512) len = .ok (r, w', sv', uio') →
      ∃ c, J (y + c) w' sv' uio' ∧ uio'.resid + c = uio.resid ∧ (r = none → c = len)
  block : ∀ y w sv uio r w' sv' uio', J y w sv uio → 512 ≤ uio.resid → y % 512 = 0 →
    blockio cur w sv uio = .ok (r, w', sv', uio') →
      ∃ c, J (y + c) w' sv' uio' ∧ uio'.resid + c = uio.resid ∧ (r = none → c = 512)

section
variable {cur : Curthread} {J : Nat → World → Sv → Uio → Prop} (h : Carries cur J) {x : Nat}
  {w w' : World} {sv sv' : Sv} {uio uio' : Uio} {r : Option Errno} (hJ : J x w sv uio)
include h hJ

theorem Carries.ioBlocks {k : Nat} (hlen : k * 512 ≤ uio.resid) (halign : x % 512 = 0)
    (hrun : ioBlocks cur k w sv uio = .ok (r, w', sv', uio')) :
    ∃ c, J (x + c) w' sv' uio' ∧ uio'.resid + c = uio.resid ∧ (r = none → c = k * 512) := by
  induction k generalizing x w sv uio with
  | zero =>
    cases hrun
    exact ⟨0,hJ,rfl,fun _ => (Nat.zero_mul 512).symm⟩
  | succ k ih =>
    rw [Nat.succ_mul] at hlen ⊢
    obtain ⟨⟨r₁,w₁,sv₁,uio₁⟩,hio,hrun⟩ := bind_ok hrun
    obtain ⟨c,hJ₁,hres,hall⟩ := h.block _ _ _ _ _ _ _ _ hJ (by omega) halign hio
    cases r₁ with
    | some e =>
      cases hrun
      exact ⟨c,hJ₁,hres,fun hr => by cases hr⟩
    | none =>
      obtain rfl := hall rfl
      have hleft : k * 512 ≤ uio₁.resid := Nat.le_of_add_le_add_right (hlen.trans_eq hres.symm)
      obtain ⟨c',hJ₂,hres',hall'⟩ := ih hJ₁ hleft (by omega) hrun
      refine ⟨512 + c',Nat.add_assoc .. ▸ hJ₂,by rw [← hres,← hres']; omega,fun hr => ?_⟩
      rw [hall' hr,Nat.add_comm]

theorem Carries.ioTail (hrun : ioTail cur w sv uio = .ok (r, w', sv', uio')) :
    ∃ c, J (x + c) w' sv' uio' ∧ uio'.resid + c = uio.resid ∧ (r = none → c = uio.resid) := by
  unfold Sfs.ioTail at hrun
  split at hrun <;> rename_i hz
  · cases hrun
    exact ⟨0,hJ,rfl,fun _ => hz.symm⟩
  obtain ⟨hmod,hrun⟩ := assert_bind_ok hrun
  have halign : x % 512 = 0 := by
    have hmod := of_decide_eq_true hmod
    rw [(h.stands _ _ _ _ hJ).offset,Int.tmod_eq_emod_of_nonneg (by omega)] at hmod
    omega
  obtain ⟨⟨r₁,w₁,sv₁,uio₁⟩,hio,hrun⟩ := bind_ok hrun
  obtain ⟨c,hJ₁,hres,hall⟩ := h.ioBlocks hJ (Nat.div_mul_le_self ..) halign hio
  cases r₁ with
  | some e =>
    cases hrun
    exact ⟨c,hJ₁,hres,fun hr => by cases hr⟩
  | none =>
    have hq : c % 512 = 0 := hall rfl ▸ Nat.mul_mod_left ..
    obtain ⟨hsmall,hrun⟩ := assert_bind_ok hrun
    have hsmall : uio₁.resid < 512 := of_decide_eq_true hsmall
    split at hrun
    · have halign' : (x + c) % 512 = 0 := by omega
      rw [← halign'] at hrun
      obtain ⟨c',hJ₂,hres',hall'⟩ :=
        h.part _ _ _ _ _ _ _ _ _ hJ₁ (Nat.le_refl _) (by omega) hrun
      refine ⟨c + c',Nat.add_assoc .. ▸ hJ₂,by omega,fun hr => ?_⟩
      have := hall' hr
      omega
    · cases hrun
      exact ⟨c,hJ₁,hres,fun _ => by omega⟩

theorem Carries.ioBody (hrun : ioBody cur w sv uio = .ok (r, w', sv', uio')) :
    ∃ c, J (x + c) w' sv' uio' ∧ uio'.resid + c = uio.resid ∧ (r = none → c = uio.resid) := by
  have hs := h.stands _ _ _ _ hJ
  unfold Sfs.ioBody at hrun
  dsimp only at hrun
  rw [hs.offset,blkoff_eq hs.low] at hrun
  split at hrun
  · rw [blkrest_eq] at hrun
    obtain ⟨⟨r₁,w₁,sv₁,uio₁⟩,hio,hrun⟩ := bind_ok hrun
    obtain ⟨c,hJ₁,hres,hall⟩ :=
      h.part _ _ _ _ _ _ _ _ _ hJ (Nat.min_le_right _ _) (by omega) hio
    cases r₁ with
    | some e =>
      cases hrun
      exact ⟨c,hJ₁,hres,fun hr => by cases hr⟩
    | none =>
      obtain ⟨c',hJ₂,hres',hall'⟩ := h.ioTail hJ₁ hrun
      refine ⟨c + c',Nat.add_assoc .. ▸ hJ₂,by omega,fun hr => ?_⟩
      have := hall' hr
      omega
  · exact h.ioTail hJ hrun

end

section
variable {cur : Curthread} {w w' : World} {sv sv' : Sv} {uio uio' : Uio} {x : Nat}
  {r : Option Errno}

def Reached (x : Nat) (uio : Uio) (y : Nat) (uio' : Uio) : Prop :=
  Stands y uio' ∧ ∃ c, uio.Advanced uio' c ∧ y = x + c ∧ (0 < c → y ≤ maxBytes)

theorem Reached.next {y n : Nat} {uio₁ : Uio} (h : Reached x uio y uio₁)
    (ht : Transfers y n r uio₁ uio') :
    ∃ c, Reached x uio (y + c) uio' ∧ uio'.resid + c = uio₁.resid ∧ (r = none → c = n) := by
  obtain ⟨hs,c,hadv,rfl,hreach⟩ := h
  obtain ⟨c',-,hadv',hall,hreach'⟩ := ht
  refine ⟨c',⟨hs.advance hadv' hreach',c + c',hadv.trans hadv',Nat.add_assoc ..,fun _ => ?_⟩,
    hadv'.resid,hall⟩
  by_cases hz : c' = 0
  · subst hz
    exact hreach (by omega)
  · exact hreach' (Nat.pos_of_ne_zero hz)

theorem reached_carries : Carries cur fun y _ _ uio' => Reached x uio y uio' :=
  ⟨fun _ _ _ _ h => h.1,
    fun _ _ _ _ _ _ _ _ _ h hlen hfit hrun => h.next (partialio_transfers h.1 hlen hfit hrun),
    fun _ _ _ _ _ _ _ _ h hlen halign hrun => h.next (blockio_transfers h.1 hlen halign hrun)⟩

theorem ioBody_transfers (hs : Stands x uio) (h : ioBody cur w sv uio = .ok (r, w', sv', uio')) :
    Transfers x uio.resid r uio uio' := by
  have hstart : Reached x uio x uio :=
    ⟨hs,0,hs.words.stay,rfl,fun hc => absurd hc (Nat.lt_irrefl 0)⟩
  obtain ⟨c,⟨-,c',hadv,heq,hreach⟩,hres,hall⟩ := reached_carries.ioBody hstart h
  obtain rfl : c' = c := by omega
  exact ⟨c',by omega,hadv,hall,hreach⟩

end

end Sfs.Fault

end OS161
