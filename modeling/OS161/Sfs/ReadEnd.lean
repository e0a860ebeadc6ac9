import OS161.Sfs.Cut
import OS161.Sfs.Progress

namespace OS161.Sfs

def StopsAtEof (size x : Nat) (uio : Uio) (r : Option Errno) (uio' : Uio) : Prop :=
  ∃ c, uio.Advanced uio' c ∧ x + c ≤ max x size ∧ (r = none → c = min uio.resid (size - x))

def EndFits (size x resid : Nat) : Prop := size ≤ x ∨ x + resid < 2 ^ 31 ∨ maxBytes ≤ size

section
variable {cur : Curthread} {sv : Sv} {uio uio' : Uio} {x resid : Nat} {r : Option Errno}

theorem readLen_past (hsize : sv.inode.size < 2 ^ 31) (hx : sv.inode.size ≤ x) :
    readLen sv x resid = 0 := by
  have hoff : offT sv.inode.size = sv.inode.size := offT_of_lt (by omega) (by omega)
  unfold readLen
  rw [hoff,if_pos (by omega)]

theorem readLen_clamped (hsize : sv.inode.size < 2 ^ 31) (hx : x < sv.inode.size)
    (hend : x + resid < 2 ^ 31) : readLen sv x resid = min resid (sv.inode.size - x) := by
  have hoff : offT sv.inode.size = sv.inode.size := offT_of_lt (by omega) (by omega)
  have hpos : offT ((x : Int) + resid) = x + resid := offT_of_lt (by omega) (by omega)
  unfold readLen
  rw [hoff,hpos,if_neg (by omega)]
  split <;> omega

theorem readLen_wrapped (hsize : sv.inode.size < 2 ^ 31) (hx : x < sv.inode.size)
    (hend : 2 ^ 31 ≤ x + resid) (hword : resid < 2 ^ 32) : readLen sv x resid = resid := by
  have hoff : offT sv.inode.size = sv.inode.size := offT_of_lt (by omega) (by omega)
  have hneg : offT ((x : Int) + resid) = x + resid - 2 ^ 32 := by
    unfold offT
    rw [Int.bmod_def]
    split <;> omega
  unfold readLen
  rw [hoff,hneg,if_neg (by omega),if_neg (by omega)]

theorem stops_of_transfer {c : Nat} (hsize : sv.inode.size < 2 ^ 31) (hword : uio.resid < 2 ^ 32)
    (hends : EndFits sv.inode.size x uio.resid) (hadv : uio.Advanced uio' c)
    (hle : c ≤ readLen sv x uio.resid) (hall : r = none → c = readLen sv x uio.resid)
    (hreach : 0 < c → x + c ≤ maxBytes) : StopsAtEof sv.inode.size x uio r uio' := by
  refine ⟨c,hadv,?_⟩
  by_cases hx : sv.inode.size ≤ x
  · rw [readLen_past hsize hx] at hle hall
    exact ⟨by omega,fun hr => by have := hall hr; omega⟩
  by_cases hend : x + uio.resid < 2 ^ 31
  · rw [readLen_clamped hsize (by omega) hend] at hle hall
    exact ⟨by omega,hall⟩
  · have hbig : maxBytes ≤ sv.inode.size := (hends.resolve_left hx).resolve_left hend
    rw [readLen_wrapped hsize (by omega) (by omega) hword] at hle hall
    refine ⟨by omega,fun hr => ?_⟩
    have := hall hr
    omega

end

section
variable {cur : Curthread} {w w' : Fault.World} {sv sv' : Sv} {uio uio' : Uio} {x : Nat}
  {r : Option Errno}

theorem limit_advanced {uio₁ : Uio} {n extra c : Nat} (hword : uio.resid < 2 ^ 32)
    (hsum : n + extra = uio.resid) (h : (Uio.limit uio n).Advanced uio₁ c) :
    uio.Advanced (Uio.limit uio₁ (u32 (uio₁.resid + extra))) c := by
  have hres : uio₁.resid + c = n := h.resid
  have hu : u32 ((uio₁.resid : Int) + extra) = uio₁.resid + extra :=
    u32_of_nat (n := uio₁.resid + extra) (by omega)
  refine ⟨h.segflg,h.space,h.rw_eq,h.base,?_,h.offset,h.buf⟩
  dsimp only [Uio.limit]
  omega

theorem fault_io_read (h : uio.At cur .read x)
    (hrun : io cur w sv uio = .ok (r, w', sv', uio')) :
    ∃ c, uio.Advanced uio' c ∧ c ≤ readLen sv x uio.resid ∧
      (r = none → c = readLen sv x uio.resid) ∧ (0 < c → x + c ≤ maxBytes) := by
  have hs : Fault.Stands x uio := ⟨h.offset,h.low,h.word⟩
  obtain ⟨out,hout,hrun⟩ := bind_ok hrun
  rcases @ioClip_cases cur x sv uio h with ⟨hclip,hz⟩ | ⟨extra,hclip,hsum⟩
  · obtain rfl := Except.ok.inj (hout.symm.trans hclip)
    cases hrun
    exact ⟨0,hs.words.stay,Nat.zero_le _,fun _ => hz.symm,fun hc => absurd hc (Nat.lt_irrefl 0)⟩
  · obtain rfl := Except.ok.inj (hout.symm.trans hclip)
    obtain ⟨⟨r₁,w₁,sv₁,uio₁⟩,hbody,hrun⟩ := bind_ok hrun
    have hat := At.limit h (Nat.le.intro hsum)
    obtain ⟨c,hle,hadv,hall,hreach⟩ :=
      Fault.ioBody_transfers ⟨hat.offset,hat.low,hat.word⟩ hbody
    have hback := limit_advanced h.word hsum hadv
    dsimp only [Uio.limit] at hle hall hback
    cases hrun
    exact ⟨c,hback,hle,hall,hreach⟩

end

section
variable {cur : Curthread} {lost : Nat → Prop} {fs : Fs} {node : Nodes} {sv : Sv} {uio uio' : Uio}
  {x c : Nat} {r : Option Errno}

theorem took_advanced {g : Mem} (h : uio.At cur .read x) (hc : c ≤ uio.resid) :
    uio.Advanced (uio.took g x c) c := by
  have hs : Fault.Stands x uio := ⟨h.offset,h.low,h.word⟩
  exact @Uio.Words.step uio (memmove uio.iovBuf uio.iovBase g x c) c hs.words hc
    fun k hk => if_neg (by omega)

theorem readLen_le (sv : Sv) (h : uio.At cur .read x) : readLen sv x uio.resid ≤ uio.resid := by
  rcases @ioClip_cases cur x sv uio h with ⟨-,hz⟩ | ⟨extra,-,hsum⟩ <;> omega

theorem io_read_overruns (hs : Sound lost fs node) (hk : node sv.ino = some sv.inode)
    (h : uio.At cur .read x) (hready : uio.ready cur) (hsize : sv.inode.size < 2 ^ 31)
    (hends : ¬ EndFits sv.inode.size x uio.resid) :
    ∃ c ≤ uio.resid, io cur fs sv uio =
        .ok (some .einval, fs, sv, uio.took (fileByte fs.disk node sv.ino) x c) ∧
      x + c = maxBytes := by
  have hword := h.word
  simp only [EndFits,not_or,Nat.not_le,Nat.not_lt] at hends
  obtain ⟨hx,hend,hsmall⟩ := hends
  obtain ⟨r,c,hrun,hm⟩ := @io_read cur lost x fs node sv uio hs hk h
  rw [readLen_wrapped hsize hx hend hword] at hm
  have hle := hm.le
  have hreach := hm.reach
  have hall := hm.all
  cases r with
  | none =>
    have := hall rfl
    unfold maxBytes at hreach
    omega
  | some e =>
    rcases hm.failed e rfl with ⟨rfl,hfar⟩ | ⟨-,hnot⟩
    · refine ⟨c,hle,hrun,?_⟩
      omega
    · exact absurd hready hnot

end

theorem read_stops_at_eof_iff {cur : Curthread} {sv : Sv} {uio : Uio} {x : Nat}
    (h : uio.At cur .read x) (hsize : sv.inode.size ≤ 2 ^ 31 - 1) :
    (EndFits sv.inode.size x uio.resid → ∀ (w : Fault.World) r w' sv' uio',
      io cur w sv uio = .ok (r, w', sv', uio') →
        StopsAtEof sv.inode.size x uio r uio') ∧
    ∀ lost fs node, Sound lost fs node → node sv.ino = some sv.inode → uio.ready cur →
      ((∃ r uio', io cur fs sv uio = .ok (r, fs, sv, uio') ∧
        StopsAtEof sv.inode.size x uio r uio') ↔ EndFits sv.inode.size x uio.resid) := by
  have hlt : sv.inode.size < 2 ^ 31 := by omega
  refine ⟨fun hends w r w' sv' uio' hrun => ?_,fun lost fs node hs hk hready => ⟨?_,fun hends => ?_⟩⟩
  · obtain ⟨c,hadv,hle,hall,hreach⟩ := fault_io_read h hrun
    exact stops_of_transfer hlt h.word hends hadv hle hall hreach
  · rintro ⟨r,uio',hrun,c,hadv,hstop,-⟩
    by_contra hends
    obtain ⟨c',hc',hrun',hfar⟩ := io_read_overruns hs hk h hready hlt hends
    rw [hrun'] at hrun
    cases hrun
    have hres := h.resid_took (g := fileByte fs.disk node sv.ino) hc'
    have hres' := hadv.resid
    simp only [EndFits,not_or,Nat.not_le,Nat.not_lt] at hends
    omega
  · obtain ⟨r,c,hrun,hm⟩ := @io_read cur lost x fs node sv uio hs hk h
    have hc := Nat.le_trans hm.le (readLen_le sv h)
    exact ⟨r,_,hrun,stops_of_transfer hlt h.word hends (took_advanced h hc) hm.le hm.all hm.reach⟩

theorem kernelRead_at (cur : Curthread) {len x : Nat} (hlen : len < 2 ^ 32) (hx : x < 2 ^ 31) :
    (mkKuio zeros len x .read).At cur .read x := ⟨rfl,rfl,rfl,Nat.le_refl _,hlen,hx⟩

theorem read_stops_in_tail :
    ∃ r uio', io ⟨none, fun _ _ => none⟩ sparseFs sparse (mkKuio zeros 1000 (8000 : Nat) .read) =
        .ok (r, sparseFs, sparse, uio') ∧
      StopsAtEof 8704 8000 (mkKuio zeros 1000 (8000 : Nat) .read) r uio' :=
  ((read_stops_at_eof_iff (kernelRead_at _ (by decide) (by decide)) (by decide)).2 _ _ _
    sparse_sound sparse_node rfl).mpr (.inr (.inl (by decide)))

theorem read_passes_eof :
    ∃ uio', io ⟨none, fun _ _ => none⟩ sparseFs sparse (mkKuio zeros (2 ^ 31) (0 : Nat) .read) =
        .ok (some .einval, sparseFs, sparse, uio') ∧
      uio'.resid = 2 ^ 31 - 73216 ∧ sparse.inode.size = 8704 ∧
      ¬ StopsAtEof 8704 0 (mkKuio zeros (2 ^ 31) (0 : Nat) .read) (some .einval) uio' := by
  have hat := @kernelRead_at ⟨none,fun _ _ => none⟩ (2 ^ 31) 0 (by decide) (by decide)
  have hwrap : ¬ EndFits sparse.inode.size 0 (2 ^ 31) := by
    unfold EndFits maxBytes
    decide
  obtain ⟨c,hc,hrun,hfar⟩ := io_read_overruns sparse_sound sparse_node hat rfl (by decide) hwrap
  have hres := hat.resid_took (g := fileByte sparseFs.disk sparseNode sparse.ino) hc
  have hlen : (mkKuio zeros (2 ^ 31) (0 : Nat) .read).resid = 2 ^ 31 := rfl
  unfold maxBytes at hfar
  refine ⟨_,hrun,by omega,rfl,?_⟩
  rintro ⟨c',hadv,hstop,-⟩
  have hres' := hadv.resid
  omega

end OS161.Sfs
