import OS161.Kern
import OS161.Lib.CString
import OS161.Lib.Run

namespace OS161.Vfs

-- A struct fs, with what FSOP_GETVOLNAME answers for it.
structure FsRef where
  id : Nat
  volname : Option CString
  deriving DecidableEq

structure Knowndev where
  name : CString
  rawname : Option CString
  device : Option Nat
  vnode : Nat
  fs : Option FsRef
  deriving DecidableEq

def Knowndev.volname (kd : Knowndev) : Option CString := kd.fs.bind FsRef.volname

def Knowndev.names (kd : Knowndev) : List CString :=
  kd.name :: (kd.rawname.toList ++ kd.volname.toList)

def mkrawname (name : CString) : CString where
  bytes := name.bytes ++ [114, 97, 119]
  nonzero b hb := by
    rcases List.mem_append.mp hb with h | h
    · exact name.nonzero b h
    · rintro rfl
      simp at h

def samestring : Option CString → Option CString → Bool
  | some a, some b => a = b
  | _, _ => false

def samestring3 (a b c d : Option CString) : Bool :=
  samestring a b || samestring a c || samestring a d

def badnames (knowndevs : List Knowndev) (n1 n2 n3 : Option CString) : Bool :=
  knowndevs.any fun kd =>
    samestring3 kd.volname n1 n2 n3 ||
      (samestring3 kd.rawname n1 n2 n3 || samestring3 (some kd.name) n1 n2 n3)

-- Which of the allocations of vfs_doadd get memory.
structure AddMem where
  name : Bool
  rawname : Bool
  vnode : Bool
  countlock : Bool
  kd : Bool
  table : Bool
  deriving DecidableEq, Repr

def AddMem.plenty : AddMem := ⟨true, true, true, true, true, true⟩

def devCreateVnode (mem : AddMem) (vnode : Nat) : Kern (Option Nat) :=
  if mem.vnode then
    if mem.countlock then pure (some vnode)
    else .error (.panic "While creating vnode for device: VOP_INIT")
  else pure none

-- The part of vfs_doadd under knowndevs_lock.
def enter (mem : AddMem) (knowndevs : List Knowndev) (kd : Knowndev) :
    Option Errno × List Knowndev :=
  if badnames knowndevs (some kd.name) kd.rawname kd.volname then (some .eexist, knowndevs)
  else if !mem.table then (some .enomem, knowndevs)
  else (none, knowndevs ++ [kd])

def vfsDoadd (mem : AddMem) (vnode : Nat) (knowndevs : List Knowndev) (dname : CString)
    (mountable : Bool) (dev : Option Nat) (fs : Option FsRef) :
    Kern (Option Errno × List Knowndev) := do
  if !mem.name then pure (some .enomem, knowndevs)
  else if mountable && !mem.rawname then pure (some .enomem, knowndevs)
  else
    let rawname := if mountable then some (mkrawname dname) else none
    match ← devCreateVnode mem vnode with
    | none => pure (some .enomem, knowndevs)
    | some vnode =>
      if !mem.kd then pure (some .enomem, knowndevs)
      else pure (enter mem knowndevs ⟨dname, rawname, dev, vnode, fs⟩)

def vfsAdddev (mem : AddMem) (vnode : Nat) (knowndevs : List Knowndev) (devname : CString)
    (dev : Nat) (mountable : Bool) : Kern (Option Errno × List Knowndev) :=
  vfsDoadd mem vnode knowndevs devname mountable (some dev) none

def vfsAddfs (mem : AddMem) (vnode : Nat) (knowndevs : List Knowndev) (devname : CString)
    (fs : FsRef) : Kern (Option Errno × List Knowndev) :=
  vfsDoadd mem vnode knowndevs devname false none (some fs)

def findmount (knowndevs : List Knowndev) (devname : CString) : Option Nat :=
  knowndevs.findIdx? fun kd => kd.rawname.isSome && (devname = kd.name : Bool)

def vfsMount (knowndevs : List Knowndev) (devname : CString)
    (mountfunc : Nat → Except Errno FsRef) : Kern (Option Errno × List Knowndev) :=
  match findmount knowndevs devname with
  | none => pure (some .enodev, knowndevs)
  | some i =>
    match knowndevs[i]? with
    | none => pure (some .enodev, knowndevs)
    | some kd =>
      if kd.fs.isSome then pure (some .ebusy, knowndevs)
      else
        match kd.device with
        | none => .error (.panic "kd->kd_device != NULL")
        | some dev =>
          match mountfunc dev with
          | .error e => pure (some e, knowndevs)
          | .ok fs => pure (none, knowndevs.set i { kd with fs := some fs })

def vfsUnmount (knowndevs : List Knowndev) (devname : CString) (sync unmount : Option Errno) :
    Kern (Option Errno × List Knowndev) :=
  match findmount knowndevs devname with
  | none => pure (some .enodev, knowndevs)
  | some i =>
    match knowndevs[i]? with
    | none => pure (some .enodev, knowndevs)
    | some kd =>
      if kd.fs.isNone then pure (some .einval, knowndevs)
      else
        match kd.device with
        | none => .error (.panic "kd->kd_device != NULL")
        | some _ =>
          match sync with
          | some e => pure (some e, knowndevs)
          | none =>
            match unmount with
            | some e => pure (some e, knowndevs)
            | none => pure (none, knowndevs.set i { kd with fs := none })

inductive Root where
  | fsroot (fs : FsRef)
  | device (vnode : Nat)
  deriving DecidableEq

-- One round of the loop in vfs_getroot; none goes on to the next device.
def Knowndev.getroot (kd : Knowndev) (devname : CString) : Option (Kern (Except Errno Root)) :=
  match kd.fs with
  | some fs =>
    if kd.name = devname ∨ fs.volname = some devname then some (pure (.ok (.fsroot fs)))
    else if kd.rawname = some devname then some (do
      assert kd.device.isSome "kd->kd_device != NULL"
      pure (.ok (.device kd.vnode)))
    else none
  | none =>
    if kd.rawname.isSome ∧ kd.name = devname then some (pure (.error .enxio))
    else if kd.name = devname ∨ kd.rawname = some devname then some (do
      assert kd.device.isSome "kd->kd_device != NULL"
      pure (.ok (.device kd.vnode)))
    else none

def vfsGetroot (devname : CString) : List Knowndev → Kern (Except Errno Root)
  | [] => pure (.error .enodev)
  | kd :: kds =>
    match kd.getroot devname with
    | some r => r
    | none => vfsGetroot devname kds

inductive DevOp where
  | adddev (devname : CString) (dev : Nat) (mountable : Bool) (vnode : Nat) (mem : AddMem)
  | addfs (devname : CString) (fs : FsRef) (vnode : Nat) (mem : AddMem)
  | mount (devname : CString) (mountfunc : Nat → Except Errno FsRef)
  | unmount (devname : CString) (sync unmount : Option Errno)

def DevOp.call (knowndevs : List Knowndev) : DevOp → Kern (Option Errno × List Knowndev)
  | .adddev devname dev mountable vnode mem => vfsAdddev mem vnode knowndevs devname dev mountable
  | .addfs devname fs vnode mem => vfsAddfs mem vnode knowndevs devname fs
  | .mount devname mountfunc => vfsMount knowndevs devname mountfunc
  | .unmount devname sync done => vfsUnmount knowndevs devname sync done

def devStep (knowndevs : List Knowndev) (op : DevOp) : Option (List Knowndev) :=
  (Prod.snd <$> op.call knowndevs).toOption

def Apart (a b : Knowndev) : Prop := ∀ n ∈ a.names, n ∉ b.names

def Unambiguous (knowndevs : List Knowndev) : Prop := knowndevs.Pairwise Apart

section Table
variable {knowndevs table' : List Knowndev} {kd a b : Knowndev} {n devname : CString} {i : Nat}

theorem Apart.symm (h : Apart a b) : Apart b a := fun n hb ha => h n ha hb

theorem unambiguous_iff : Unambiguous knowndevs ↔ ∀ (i j : Nat) (a b : Knowndev),
    knowndevs[i]? = some a → knowndevs[j]? = some b → i ≠ j → Apart a b := by
  unfold Unambiguous
  rw [List.pairwise_iff_getElem]
  constructor
  · intro h i j a b ha hb hij
    obtain ⟨hi,rfl⟩ := List.getElem?_eq_some_iff.mp ha
    obtain ⟨hj,rfl⟩ := List.getElem?_eq_some_iff.mp hb
    rcases Nat.lt_or_gt_of_ne hij with hlt | hgt
    · exact h i j hi hj hlt
    · exact (h j i hj hi hgt).symm
  · intro h i j hi hj hij
    exact h i j _ _ (List.getElem?_eq_getElem hi) (List.getElem?_eq_getElem hj) (Nat.ne_of_lt hij)

theorem samestring_iff {x y : Option CString} : samestring x y = true ↔ ∃ s, x = some s ∧ y = some s := by
  cases x <;> cases y <;> simp [samestring]
  exact eq_comm

theorem mem_names : n ∈ kd.names ↔ n = kd.name ∨ kd.rawname = some n ∨ kd.volname = some n := by
  simp [Knowndev.names]

theorem samestring3_names {x : Option CString} {new : Knowndev} :
    samestring3 x (some new.name) new.rawname new.volname = true ↔
      ∃ n, x = some n ∧ n ∈ new.names := by
  simp only [samestring3,Bool.or_eq_true,samestring_iff,mem_names]
  constructor
  · rintro ((⟨n,hx,hn⟩ | ⟨n,hx,hn⟩) | ⟨n,hx,hn⟩)
    · exact ⟨n,hx,.inl (Option.some.inj hn).symm⟩
    · exact ⟨n,hx,.inr (.inl hn)⟩
    · exact ⟨n,hx,.inr (.inr hn)⟩
  · rintro ⟨n,hx,rfl | hn | hn⟩
    · exact .inl (.inl ⟨_,hx,rfl⟩)
    · exact .inl (.inr ⟨n,hx,hn⟩)
    · exact .inr ⟨n,hx,hn⟩

theorem badnames_iff {new : Knowndev} :
    badnames knowndevs (some new.name) new.rawname new.volname = true ↔
      ∃ kd ∈ knowndevs, ¬ Apart kd new := by
  simp only [badnames,List.any_eq_true,Bool.or_eq_true,samestring3_names,Apart,not_forall,
    Decidable.not_not]
  refine exists_congr fun kd => and_congr_right fun _ => ?_
  constructor
  · rintro (⟨n,hx,hn⟩ | ⟨n,hx,hn⟩ | ⟨n,hx,hn⟩)
    · exact ⟨n,mem_names.mpr (.inr (.inr hx)),hn⟩
    · exact ⟨n,mem_names.mpr (.inr (.inl hx)),hn⟩
    · exact ⟨n,mem_names.mpr (.inl (Option.some.inj hx).symm),hn⟩
  · rintro ⟨n,hkd,hn⟩
    rcases mem_names.mp hkd with rfl | hx | hx
    · exact .inr (.inr ⟨_,rfl,hn⟩)
    · exact .inr (.inl ⟨n,hx,hn⟩)
    · exact .inl ⟨n,hx,hn⟩

theorem getroot_none : kd.getroot n = none ↔ n ∉ kd.names := by
  rw [mem_names]
  unfold Knowndev.getroot Knowndev.volname
  cases kd.fs with
  | none =>
    by_cases hname : kd.name = n <;> by_cases hraw : kd.rawname = some n <;>
      cases hmount : kd.rawname.isSome <;> simp_all [eq_comm (a := n)]
  | some fs =>
    by_cases hname : kd.name = n <;> by_cases hraw : kd.rawname = some n <;>
      by_cases hvol : fs.volname = some n <;> simp [hname,hraw,hvol,eq_comm (a := n)]

theorem vfsGetroot_of_mem (h : Unambiguous knowndevs) (hkd : kd ∈ knowndevs)
    (hn : n ∈ kd.names) : some (vfsGetroot n knowndevs) = kd.getroot n := by
  induction knowndevs with
  | nil => cases hkd
  | cons a knowndevs ih =>
    obtain ⟨hfirst,hrest⟩ := List.pairwise_cons.mp h
    rcases List.mem_cons.mp hkd with rfl | hkd
    · cases hroot : kd.getroot n with
      | none => exact absurd hn (getroot_none.mp hroot)
      | some r => rw [vfsGetroot,hroot]
    · have hskip : a.getroot n = none := getroot_none.mpr fun ha => hfirst kd hkd n ha hn
      rw [vfsGetroot,hskip]
      exact ih hrest hkd

theorem vfsGetroot_of_not_mem (h : ∀ kd ∈ knowndevs, n ∉ kd.names) :
    vfsGetroot n knowndevs = pure (.error .enodev) := by
  induction knowndevs with
  | nil => rfl
  | cons a knowndevs ih =>
    rw [vfsGetroot,getroot_none.mpr (h a List.mem_cons_self)]
    exact ih fun kd hkd => h kd (List.mem_cons_of_mem a hkd)

theorem vfsGetroot_perm (h : Unambiguous knowndevs) (hp : table'.Perm knowndevs) (n : CString) :
    vfsGetroot n table' = vfsGetroot n knowndevs := by
  have h' : Unambiguous table' := (hp.pairwise_iff Apart.symm).mpr h
  by_cases hn : ∃ kd ∈ knowndevs, n ∈ kd.names
  · obtain ⟨kd,hkd,hn⟩ := hn
    apply Option.some.inj
    rw [vfsGetroot_of_mem h' (hp.mem_iff.mpr hkd) hn,vfsGetroot_of_mem h hkd hn]
  · have hnot : ∀ kd ∈ knowndevs, n ∉ kd.names := fun kd hkd hmem => hn ⟨kd,hkd,hmem⟩
    rw [vfsGetroot_of_not_mem hnot,
      vfsGetroot_of_not_mem fun kd hkd => hnot kd (hp.mem_iff.mp hkd)]

theorem unambiguous_append {new : Knowndev} : Unambiguous (knowndevs ++ [new]) ↔
    Unambiguous knowndevs ∧ ∀ kd ∈ knowndevs, Apart kd new := by
  simp [Unambiguous,List.pairwise_append]

theorem unambiguous_set {new : Knowndev} (h : Unambiguous knowndevs)
    (hi : knowndevs[i]? = some kd) : Unambiguous (knowndevs.set i new) ↔
      ∀ (j : Nat) (a : Knowndev), knowndevs[j]? = some a → j ≠ i → Apart a new := by
  have hlt := (List.getElem?_eq_some_iff.mp hi).1
  rw [unambiguous_iff]
  constructor
  · intro hset j a ha hj
    refine hset j i a new ?_ (by simp [hlt]) hj
    rw [List.getElem?_set_ne (Ne.symm hj),ha]
  · intro hnew j k a b ha hb hjk
    by_cases hj : j = i
    · subst hj
      rw [List.getElem?_set_ne hjk] at hb
      have ha : new = a := by simpa [hlt] using ha
      exact ha ▸ (hnew k b hb (Ne.symm hjk)).symm
    · rw [List.getElem?_set_ne (Ne.symm hj)] at ha
      by_cases hk : k = i
      · subst hk
        have hb : new = b := by simpa [hlt] using hb
        exact hb ▸ hnew j a ha hj
      · rw [List.getElem?_set_ne (Ne.symm hk)] at hb
        exact unambiguous_iff.mp h j k a b ha hb hjk

theorem Unambiguous.enter (h : Unambiguous knowndevs) (mem : AddMem) (kd : Knowndev) :
    Unambiguous (enter mem knowndevs kd).2 := by
  unfold Vfs.enter
  split
  · exact h
  · rename_i hbad
    split
    · exact h
    · refine unambiguous_append.mpr ⟨h,fun a ha => ?_⟩
      by_contra hclash
      exact hbad (badnames_iff.mpr ⟨a,ha,hclash⟩)

theorem Unambiguous.doadd {mem : AddMem} {vnode : Nat} {mountable : Bool} {dev : Option Nat}
    {fs : Option FsRef} {r : Option Errno} (h : Unambiguous knowndevs)
    (hadd : vfsDoadd mem vnode knowndevs devname mountable dev fs = .ok (r, table')) :
    Unambiguous table' := by
  unfold vfsDoadd at hadd
  split at hadd
  · cases hadd
    exact h
  · split at hadd
    · cases hadd
      exact h
    · obtain ⟨v,_,hadd⟩ := bind_ok hadd
      cases v with
      | none =>
        cases hadd
        exact h
      | some vnode =>
        dsimp only at hadd
        by_cases hkd : (!mem.kd) = true
        · rw [if_pos hkd] at hadd
          cases hadd
          exact h
        · rw [if_neg hkd] at hadd
          have hent := h.enter mem ⟨devname,if mountable then some (mkrawname devname) else none,
            dev,vnode,fs⟩
          rwa [Except.ok.inj hadd] at hent

theorem devStep_some {op : DevOp} (h : devStep knowndevs op = some table') :
    ∃ r, op.call knowndevs = .ok (r, table') := by
  unfold devStep at h
  have h := ok_of_toOption h
  cases hcall : op.call knowndevs with
  | error e =>
    rw [hcall] at h
    cases h
  | ok p =>
    rw [hcall] at h
    cases h
    exact ⟨p.1,rfl⟩

theorem Unambiguous.unmount {sync done : Option Errno} {r : Option Errno}
    (h : Unambiguous knowndevs)
    (hun : vfsUnmount knowndevs devname sync done = .ok (r, table')) : Unambiguous table' := by
  unfold vfsUnmount at hun
  split at hun
  · cases hun
    exact h
  · rename_i i _
    split at hun
    · cases hun
      exact h
    · rename_i kd hkd
      split at hun
      · cases hun
        exact h
      · split at hun
        · cases hun
        · split at hun
          · cases hun
            exact h
          · split at hun
            · cases hun
              exact h
            · cases hun
              refine (unambiguous_set h hkd).mpr fun j a ha hj n hn hmem => ?_
              refine unambiguous_iff.mp h j i a kd ha hkd hj n hn (mem_names.mpr ?_)
              rcases mem_names.mp hmem with hname | hraw | hvol
              · exact .inl hname
              · exact .inr (.inl hraw)
              · cases hvol

def Fresh (knowndevs : List Knowndev) : DevOp → Prop
  | .mount devname mountfunc => ∀ i kd dev fs v, findmount knowndevs devname = some i →
      knowndevs[i]? = some kd → kd.fs = none → kd.device = some dev → mountfunc dev = .ok fs →
      fs.volname = some v → ∀ (j : Nat) (a : Knowndev), knowndevs[j]? = some a → j ≠ i →
      v ∉ a.names
  | _ => True

theorem fresh_mount {mountfunc : Nat → Except Errno FsRef} (h : Unambiguous knowndevs) :
    Fresh knowndevs (.mount devname mountfunc) ↔
      ∀ t, devStep knowndevs (.mount devname mountfunc) = some t → Unambiguous t := by
  have hset : ∀ {i kd dev fs}, findmount knowndevs devname = some i → knowndevs[i]? = some kd →
      kd.fs = none → kd.device = some dev → mountfunc dev = .ok fs →
      vfsMount knowndevs devname mountfunc =
        .ok (none, knowndevs.set i { kd with fs := some fs }) := by
    intro i kd dev fs hfind hkd hfs hdev hmount
    simp only [vfsMount,hfind,hkd,hfs,hdev,hmount]
    rfl
  constructor
  · intro hfresh t ht
    obtain ⟨r,hcall⟩ := devStep_some ht
    change vfsMount knowndevs devname mountfunc = _ at hcall
    cases hfind : findmount knowndevs devname with
    | none =>
      simp only [vfsMount,hfind] at hcall
      cases hcall
      exact h
    | some i =>
      cases hkd : knowndevs[i]? with
      | none =>
        simp only [vfsMount,hfind,hkd] at hcall
        cases hcall
        exact h
      | some kd =>
        cases hfs : kd.fs with
        | some fs =>
          simp only [vfsMount,hfind,hkd,hfs] at hcall
          cases hcall
          exact h
        | none =>
          cases hdev : kd.device with
          | none =>
            simp only [vfsMount,hfind,hkd,hfs,hdev] at hcall
            cases hcall
          | some dev =>
            cases hmount : mountfunc dev with
            | error e =>
              simp only [vfsMount,hfind,hkd,hfs,hdev,hmount] at hcall
              cases hcall
              exact h
            | ok fs =>
              rw [hset hfind hkd hfs hdev hmount] at hcall
              cases hcall
              refine (unambiguous_set h hkd).mpr fun j a ha hj n hn hmem => ?_
              rcases mem_names.mp hmem with hname | hraw | hvol
              · exact unambiguous_iff.mp h j i a kd ha hkd hj n hn (mem_names.mpr (.inl hname))
              · exact unambiguous_iff.mp h j i a kd ha hkd hj n hn
                  (mem_names.mpr (.inr (.inl hraw)))
              · exact hfresh i kd dev fs n hfind hkd hfs hdev hmount hvol j a ha hj hn
  · intro hnext i kd dev fs v hfind hkd hfs hdev hmount hvol j a ha hj hv
    have ht : devStep knowndevs (.mount devname mountfunc) =
        some (knowndevs.set i { kd with fs := some fs }) := by
      simp only [devStep,DevOp.call,hset hfind hkd hfs hdev hmount]
      rfl
    exact (unambiguous_set h hkd).mp (hnext _ ht) j a ha hj v hv (mem_names.mpr (.inr (.inr hvol)))

theorem fresh_iff {op : DevOp} (h : Unambiguous knowndevs) :
    Fresh knowndevs op ↔ ∀ t, devStep knowndevs op = some t → Unambiguous t := by
  cases op with
  | mount devname mountfunc => exact fresh_mount h
  | adddev devname dev mountable vnode mem | addfs devname fs vnode mem =>
    refine iff_of_true trivial fun t ht => ?_
    obtain ⟨r,hcall⟩ := devStep_some ht
    exact h.doadd hcall
  | unmount devname sync done =>
    refine iff_of_true trivial fun t ht => ?_
    obtain ⟨r,hcall⟩ := devStep_some ht
    exact h.unmount hcall

end Table

theorem device_names_unambiguous_iff (ops : List DevOp) :
    Run.Along devStep Fresh [] ops ↔
      ∀ (pre post : List DevOp) (knowndevs : List Knowndev), ops = pre ++ post →
        Run.exec devStep [] pre = some knowndevs → Unambiguous knowndevs ∧
          ∀ (table' : List Knowndev) (devname : CString), table'.Perm knowndevs →
            vfsGetroot devname table' = vfsGetroot devname knowndevs := by
  have hstep : ∀ t op, Unambiguous t → (Fresh t op ↔ ∀ t', devStep t op = some t' → Unambiguous t') :=
    fun _ _ => fresh_iff
  have hiff := @Run.along_iff _ _ devStep Fresh Unambiguous hstep [] ops List.Pairwise.nil
  rw [hiff]
  constructor
  · intro h pre post t hops hexec
    have ht := h pre post t hops hexec
    exact ⟨ht,fun table' devname hp => vfsGetroot_perm ht hp devname⟩
  · intro h pre post t hops hexec
    exact (h pre post t hops hexec).1

def lhd0 : CString := ⟨[108, 104, 100, 48], by simp⟩

def lhd1 : CString := ⟨[108, 104, 100, 49], by simp⟩

def mountAsOther : List DevOp :=
  [.adddev lhd0 0 true 10 .plenty, .adddev lhd1 1 true 11 .plenty,
    .mount lhd0 fun _ => .ok ⟨7, some lhd1⟩]

theorem mount_shadows_device : ∃ knowndevs : List Knowndev,
    Run.exec devStep [] mountAsOther = some knowndevs ∧ ¬ Unambiguous knowndevs ∧
    vfsGetroot lhd1 knowndevs = .ok (.ok (.fsroot ⟨7, some lhd1⟩)) ∧
    vfsGetroot lhd1 knowndevs.reverse = .ok (.error .enxio) := by
  refine ⟨_,rfl,fun h => ?_,rfl,rfl⟩
  have hclash := List.rel_of_pairwise_cons h List.mem_cons_self
  exact hclash lhd1 (by decide) (by decide)

end OS161.Vfs
