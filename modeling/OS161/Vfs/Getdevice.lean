import OS161.Kern
import Mathlib.Data.List.Basic

namespace OS161.Vfs

abbrev Path := List UInt8

def colonChar : UInt8 := ':'.toUInt8

def slashChar : UInt8 := '/'.toUInt8

structure Lookup (ν : Type) where
  getcurdir : Except Errno ν
  getroot : Path → Except Errno ν
  bootfs : Option ν
  fsRoot : ν → Option ν

-- The first loop of getdevice: the values of colon and slash.
def locate : Nat → Path → Int × Int
  | _, [] => (-1, -1)
  | i, c :: path =>
    if c = colonChar then (i, -1) else if c = slashChar then (-1, i) else locate (i + 1) path

def skipSlashes : Path → Path
  | [] => []
  | c :: path => if c = slashChar then skipSlashes path else c :: path

section
variable {ν : Type} (vfs : Lookup ν)

def getdevice (path : Path) : Kern (Except Errno (Path × ν)) := do
  let (colon, slash) := locate 0 path
  if colon < 0 ∧ slash ≠ 0 then .ok (vfs.getcurdir.map (path, ·))
  else if 0 < colon then
    -- path[colon] is set to 0, so vfs_getroot sees what stands before it
    .ok ((vfs.getroot (path.take colon.toNat)).map (skipSlashes (path.drop (colon.toNat + 1)), ·))
  else do
    assert (colon = 0 ∨ slash = 0) "colon==0 || slash==0"
    if path.head? = some slashChar then
      match vfs.bootfs with
      | none => .ok (.error .enoent)
      | some vn => .ok (.ok (skipSlashes path.tail, vn))
    else do
      assert (path.head? = some colonChar) "path[0]==':'"
      match vfs.getcurdir with
      | .error e => .ok (.error e)
      | .ok vn =>
        match vfs.fsRoot vn with
        | none => .error (.panic "vn->vn_fs!=NULL")
        | some root => .ok (.ok (skipSlashes path.tail, root))

def Plain (name : Path) : Prop := colonChar ∉ name ∧ slashChar ∉ name

structure Remainder (path rest subpath : Path) : Prop where
  eq : subpath = rest.dropWhile (· = slashChar)
  start : subpath.head? ≠ some slashChar
  suffix : subpath <:+ path

inductive Parsed (path : Path) : Path → ν → Prop
  | bare {vn} (hname : Plain path) (hdir : vfs.getcurdir = .ok vn) : Parsed path path vn
  | relative {name rest vn} (hpath : path = name ++ slashChar :: rest) (hname : Plain name)
      (hne : name ≠ []) (hdir : vfs.getcurdir = .ok vn) : Parsed path path vn
  | device {name rest sub vn} (hpath : path = name ++ colonChar :: rest) (hname : Plain name)
      (hne : name ≠ []) (hroot : vfs.getroot name = .ok vn) (hsub : Remainder path rest sub) :
      Parsed path sub vn
  | boot {rest sub vn} (hpath : path = slashChar :: rest) (hboot : vfs.bootfs = some vn)
      (hsub : Remainder path rest sub) : Parsed path sub vn
  | root {rest sub dir vn} (hpath : path = colonChar :: rest) (hdir : vfs.getcurdir = .ok dir)
      (hroot : vfs.fsRoot dir = some vn) (hsub : Remainder path rest sub) : Parsed path sub vn

end

theorem skipSlashes_eq (path : Path) : skipSlashes path = path.dropWhile (· = slashChar) := by
  induction path with
  | nil => rfl
  | cons c path ih => by_cases h : c = slashChar <;> simp [skipSlashes,h,ih]

theorem skipSlashes_remainder {path name rest : Path} {c : UInt8} (h : path = name ++ c :: rest) :
    Remainder path rest (skipSlashes rest) := by
  refine ⟨skipSlashes_eq rest,fun hs => ?_,?_⟩
  · rw [skipSlashes_eq] at hs
    have := List.head?_dropWhile_not (fun b => decide (b = slashChar)) rest
    rw [hs] at this
    simp at this
  · rw [skipSlashes_eq,h]
    exact (List.dropWhile_suffix _).trans ⟨name ++ [c],by simp⟩

theorem locate_cases (path : Path) (i : Nat) :
    (Plain path ∧ locate i path = (-1,-1)) ∨ ∃ name c rest, path = name ++ c :: rest ∧ Plain name ∧
      (c = colonChar ∧ locate i path = (((i + name.length : Nat) : Int),-1) ∨
        c = slashChar ∧ locate i path = (-1,((i + name.length : Nat) : Int))) := by
  have hnil : Plain [] := ⟨List.not_mem_nil,List.not_mem_nil⟩
  induction path generalizing i with
  | nil => exact .inl ⟨hnil,rfl⟩
  | cons c path ih =>
    by_cases hcolon : c = colonChar
    · exact .inr ⟨[],c,path,rfl,hnil,.inl ⟨hcolon,by rw [locate,if_pos hcolon]; rfl⟩⟩
    by_cases hslash : c = slashChar
    · exact .inr ⟨[],c,path,rfl,hnil,
        .inr ⟨hslash,by rw [locate,if_neg hcolon,if_pos hslash]; rfl⟩⟩
    have hplain {name : Path} (h : Plain name) : Plain (c :: name) :=
      ⟨by simp [h.1,Ne.symm hcolon],by simp [h.2,Ne.symm hslash]⟩
    rw [locate,if_neg hcolon,if_neg hslash]
    rcases ih (i + 1) with ⟨hp,hl⟩ | ⟨name,d,rest,rfl,hp,hd⟩
    · exact .inl ⟨hplain hp,hl⟩
    · refine .inr ⟨c :: name,d,rest,rfl,hplain hp,?_⟩
      rwa [List.length_cons,Nat.add_comm name.length,← Nat.add_assoc]

theorem map_ok {α β : Type} {x : Except Errno α} {f : α → β} {b : β}
    (h : (.ok (x.map f) : Kern (Except Errno β)) = .ok (.ok b)) : ∃ a, x = .ok a ∧ f a = b := by
  cases x with
  | error e => cases h
  | ok a => exact ⟨a,rfl,Except.ok.inj (Except.ok.inj h)⟩

theorem getdevice_parses {ν : Type} (vfs : Lookup ν) (path subpath : Path) (vn : ν)
    (h : getdevice vfs path = .ok (.ok (subpath, vn))) : Parsed vfs path subpath vn := by
  unfold getdevice at h
  rcases locate_cases path 0 with ⟨hp,hl⟩ | ⟨name,c,rest,hpath,hp,⟨rfl,hl⟩ | ⟨rfl,hl⟩⟩ <;>
    rw [hl] at h <;> dsimp only at h
  · rw [if_pos (by decide)] at h
    obtain ⟨_,hdir,⟨⟩⟩ := map_ok h
    exact .bare hp hdir
  · cases name with
    | nil =>
      have hhead : path.head? = some colonChar := congrArg List.head? hpath
      have htail : path.tail = rest := congrArg List.tail hpath
      rw [if_neg (by simp),if_neg (by simp),assert_of (by simp),ok_bind,hhead,htail,
        if_neg (by decide),assert_of (by decide),ok_bind] at h
      split at h
      · cases h
      · split at h <;> cases h
        exact .root hpath (by assumption) (by assumption) (skipSlashes_remainder hpath)
    | cons b name =>
      have htake : path.take (b :: name).length = b :: name := by simp [hpath]
      have hdrop : path.drop ((b :: name).length + 1) = rest := by simp [hpath]
      rw [if_neg (by omega),if_pos (by simp),Nat.zero_add,Int.toNat_natCast,htake,hdrop] at h
      obtain ⟨_,hroot,⟨⟩⟩ := map_ok h
      exact .device hpath hp (List.cons_ne_nil b name) hroot (skipSlashes_remainder hpath)
  · cases name with
    | nil =>
      have hhead : path.head? = some slashChar := congrArg List.head? hpath
      have htail : path.tail = rest := congrArg List.tail hpath
      rw [if_neg (by simp),if_neg (by simp),assert_of (by simp),ok_bind,hhead,htail,
        if_pos rfl] at h
      split at h <;> cases h
      exact .boot hpath (by assumption) (skipSlashes_remainder hpath)
    | cons b name =>
      rw [if_pos ⟨by decide,by rw [List.length_cons]; omega⟩] at h
      obtain ⟨_,hdir,⟨⟩⟩ := map_ok h
      exact .relative hpath hp (List.cons_ne_nil b name) hdir

def demoLookup : Lookup Nat := ⟨.ok 1, fun _ => .ok 2, some 3, some⟩

theorem getdevice_parses_device :
    Parsed demoLookup [108, 58, 47, 47, 97] [97] 2 :=
  getdevice_parses demoLookup _ _ _ (by rfl)

end OS161.Vfs
