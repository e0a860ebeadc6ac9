import Mathlib.Data.List.Nodup
import OS161.Kern
import OS161.Lib.Run

namespace OS161.Vfs.Emufs

open Function

structure Vnode where
  handle : Nat
  refcount : Nat
  deriving DecidableEq, Repr

-- vn_refcount is an int.
def intMax : Nat := 2 ^ 31 - 1

-- What a thread does next: emufs_loadvnode, vnode_decref and, from it, emufs_reclaim.  A section
-- under vn_countlock is one step, since vn_refcount is only used under that lock.
inductive Pc where
  | idle
  | loadLock (handle : Nat)
  | loadScan (handle : Nat)
  | loadIncref (ev : Nat)
  | loadCreate (handle : Nat)
  | decref (ev : Nat)
  | reclaimLock (ev : Nat)
  | reclaimTest (ev : Nat)
  | reclaimClose (ev : Nat)
  | reclaimRemove (ev : Nat)
  | reclaimKill (ev : Nat)
  | unlock
  deriving DecidableEq, Repr

structure State where
  -- holder of e_lock
  elock : Option Nat
  -- ef_vnodes
  vnodes : List Nat
  node : Nat → Option Vnode
  root : Nat
  next : Nat
  pc : Nat → Pc
  -- which thread holds a reference to which vnode
  held : List (Nat × Nat)
  -- the thread that has decided to reclaim a vnode, and the references nobody will give back
  claim : Nat → Option Nat
  leaked : Nat → Nat

namespace State

def boot : State where
  elock := none
  vnodes := [0]
  node := fun ev => if ev = 0 then some ⟨0, 1⟩ else none
  root := 0
  next := 1
  pc := fun _ => .idle
  held := []
  claim := fun _ => none
  leaked := fun _ => 0

def goto (s : State) (t : Nat) (pc : Pc) : State := { s with pc := Function.update s.pc t pc }

def setRefcount (s : State) (ev : Nat) (v : Vnode) (refcount : Nat) : State :=
  { s with node := Function.update s.node ev (some { v with refcount := refcount }) }

def lose (s : State) (ev : Nat) : State :=
  { s with
    claim := Function.update s.claim ev none
    leaked := Function.update s.leaked ev (s.leaked ev + 1) }

def withNode {α : Type} (s : State) (ev : Nat) (k : Vnode → Kern α) : Kern α :=
  match s.node ev with
  | some v => k v
  | none => .error (.panic "freed vnode")

def findHandle (s : State) (handle : Nat) : List Nat → Kern (Option Nat)
  | [] => .ok none
  | ev :: rest => s.withNode ev fun v =>
      if v.handle = handle then .ok (some ev) else s.findHandle handle rest

-- The ok of a step is whether kmalloc (and VOP_INIT and array_add) gets memory in
-- emufs_loadvnode, and whether emu_close succeeds in emufs_reclaim.
def advance (s : State) (t : Nat) (ok : Bool) : Option (Kern State) :=
  match s.pc t with
  | .idle => none
  | .loadLock handle =>
    if s.elock = none then some (.ok ({ s with elock := some t }.goto t (.loadScan handle)))
    else none
  | .loadScan handle =>
    some (do
      match ← s.findHandle handle s.vnodes with
      | some ev => pure (s.goto t (.loadIncref ev))
      | none => pure (s.goto t (.loadCreate handle)))
  | .loadIncref ev => some (s.withNode ev fun v => do
      assert (v.refcount < intMax) "vn_refcount overflows"
      pure ({ s.setRefcount ev v (v.refcount + 1) with
        held := (t, ev) :: s.held }.goto t .unlock))
  | .loadCreate handle =>
    some (.ok (if ok then
      { s with
        node := Function.update s.node s.next (some ⟨handle, 1⟩)
        vnodes := s.vnodes ++ [s.next]
        held := (t, s.next) :: s.held
        next := s.next + 1 }.goto t .unlock
    else s.goto t .unlock))
  | .decref ev => some (s.withNode ev fun v => do
      assert (0 < v.refcount) "vn->vn_refcount>0"
      let s := { s with held := s.held.erase (t, ev) }
      if 1 < v.refcount then pure ((s.setRefcount ev v (v.refcount - 1)).goto t .idle)
      else pure ({ s with claim := Function.update s.claim ev (some t) }.goto t (.reclaimLock ev)))
  | .reclaimLock ev =>
    if s.elock = none then
      some (s.withNode ev fun _ => .ok ({ s with elock := some t }.goto t (.reclaimTest ev)))
    else none
  | .reclaimTest ev => some (s.withNode ev fun v => .ok
      (if v.refcount ≠ 1 then (s.lose ev).goto t .unlock else s.goto t (.reclaimClose ev)))
  | .reclaimClose ev =>
    some (s.withNode ev fun _ => .ok
      (if ok then s.goto t (.reclaimRemove ev) else (s.lose ev).goto t .unlock))
  | .reclaimRemove ev => some (do
      assert (s.vnodes.contains ev) "reclaim vnode not in vnode pool"
      pure ({ s with vnodes := s.vnodes.erase ev, elock := none }.goto t (.reclaimKill ev)))
  | .reclaimKill ev => some (s.withNode ev fun v => do
      assert (v.refcount == 1) "vn->vn_refcount==1"
      pure ({ s with
        node := Function.update s.node ev none
        claim := Function.update s.claim ev none }.goto t .idle))
  | .unlock => some (.ok ({ s with elock := none }.goto t .idle))

end State

inductive Act where
  | load (t handle : Nat)
  | decref (t ev : Nat)
  | run (t : Nat) (ok : Bool)
  deriving DecidableEq, Repr

namespace State

def call (s : State) : Act → Option (Kern State)
  | .load t handle =>
    if s.pc t = .idle then some (.ok (s.goto t (.loadLock handle))) else none
  | .decref t ev =>
    if s.pc t = .idle ∧ (t, ev) ∈ s.held then some (.ok (s.goto t (.decref ev))) else none
  | .run t ok => s.advance t ok

def step (s : State) (act : Act) : Option State := (s.call act).bind Except.toOption

def refs (s : State) (ev : Nat) : Nat :=
  s.held.countP (fun p => p.2 == ev) + if ev = s.root then 1 else 0

def Settled (s : State) : Act → Prop
  | .run t ok =>
    (∀ ev v, s.pc t = .reclaimTest ev → s.node ev = some v → v.refcount = 1) ∧
    (∀ ev, s.pc t = .reclaimClose ev → ok = true)
  | _ => True

end State

namespace Pc

def reclaiming : Pc → Option Nat
  | .reclaimLock ev | .reclaimTest ev | .reclaimClose ev | .reclaimRemove ev | .reclaimKill ev =>
    some ev
  | _ => none

def locked : Pc → Bool
  | .loadScan _ | .loadIncref _ | .loadCreate _ | .reclaimTest _ | .reclaimClose _
  | .reclaimRemove _ | .unlock => true
  | _ => false

def doomed : Pc → Option Nat
  | .reclaimClose ev | .reclaimRemove ev | .reclaimKill ev => some ev
  | _ => none

theorem reclaiming_of_doomed {pc : Pc} {ev : Nat} (h : pc.doomed = some ev) :
    pc.reclaiming = some ev := by
  cases pc <;> simp_all [doomed,reclaiming]

end Pc

structure Local (s : State) (t : Nat) (pc : Pc) : Prop where
  claims : ∀ ev, s.claim ev = some t ↔ pc.reclaiming = some ev
  locks : pc.locked = true ↔ s.elock = some t
  found : ∀ ev, pc = .loadIncref ev → ev ∈ s.vnodes
  last : ∀ ev, pc.doomed = some ev → s.refs ev = 0 ∧ s.leaked ev = 0
  gone : ∀ ev, pc = .reclaimKill ev → ev ∉ s.vnodes
  holder : ∀ ev, pc = .decref ev → (t, ev) ∈ s.held

structure Inv (s : State) : Prop where
  fresh : ∀ ev v, s.node ev = some v → ev < s.next
  pooled : ∀ ev ∈ s.vnodes, ∃ v, s.node ev = some v
  once : s.vnodes.Nodup
  unpooled : ∀ ev v, s.node ev = some v → ev ∉ s.vnodes → ∃ t, s.pc t = .reclaimKill ev
  count : ∀ ev v, s.node ev = some v →
    v.refcount = s.refs ev + (s.claim ev).toList.length + s.leaked ev
  positive : ∀ ev v, s.node ev = some v → 0 < v.refcount
  dead : ∀ ev, s.node ev = none → s.refs ev = 0 ∧ s.claim ev = none ∧ s.leaked ev = 0
  threads : ∀ t, Local s t (s.pc t)

namespace Inv
open State
variable {s s' : State} {t ev handle : Nat} {v : Vnode} {pc : Pc}

theorem boot : Inv State.boot where
  fresh ev v h := by
    simp only [State.boot] at h ⊢
    split at h <;> simp_all
  pooled ev h := by simp_all [State.boot]
  once := by simp [State.boot]
  unpooled ev v h := by
    simp only [State.boot] at h ⊢
    split at h <;> simp_all
  count ev v h := by
    obtain ⟨-,⟨⟩⟩ := Option.ite_none_right_eq_some.mp h
    simp_all [State.boot,refs]
  positive ev v h := by
    obtain ⟨-,⟨⟩⟩ := Option.ite_none_right_eq_some.mp h
    exact Nat.one_pos
  dead ev h := by
    simp only [State.boot] at h
    split at h
    · cases h
    · rename_i hev
      simp [State.boot,refs,hev]
  threads t := by constructor <;> simp [State.boot,Pc.reclaiming,Pc.locked,Pc.doomed]

theorem goto_ne {u : Nat} (h : u ≠ t) : (s.goto t pc).pc u = s.pc u := by
  simp [goto,h]

theorem goto_threads (hself : Local s t pc) (hother : ∀ u, u ≠ t → Local s u (s.pc u)) (u : Nat) :
    Local (s.goto t pc) u ((s.goto t pc).pc u) := by
  rcases eq_or_ne u t with rfl | hu
  · rw [show (s.goto u pc).pc u = pc by simp [goto]]
    exact ⟨hself.claims,hself.locks,hself.found,hself.last,hself.gone,hself.holder⟩
  · rw [goto_ne hu]
    have h := hother u hu
    exact ⟨h.claims,h.locks,h.found,h.last,h.gone,h.holder⟩

theorem goto_unpooled (h : Inv s) (hpc : ∀ ev, s.pc t ≠ .reclaimKill ev) (ev : Nat) (v : Vnode)
    (hv : s.node ev = some v) (hev : ev ∉ s.vnodes) : ∃ u, (s.goto t pc).pc u = .reclaimKill ev := by
  obtain ⟨u,hu⟩ := h.unpooled ev v hv hev
  have hne : u ≠ t := fun he => hpc ev (he ▸ hu)
  exact ⟨u,(goto_ne hne).trans hu⟩

theorem move (h : Inv s) (lock : Option Nat) (hpc : ∀ ev, s.pc t ≠ .reclaimKill ev)
    (hlock : ∀ u, u ≠ t → (lock = some u ↔ s.elock = some u))
    (hself : Local { s with elock := lock } t pc) : Inv ({ s with elock := lock }.goto t pc) where
  fresh := h.fresh
  pooled := h.pooled
  once := h.once
  unpooled := h.goto_unpooled hpc
  count := h.count
  positive := h.positive
  dead := h.dead
  threads := goto_threads hself fun u hu =>
    have hu' := h.threads u
    ⟨hu'.claims,by rw [hu'.locks]; exact (hlock u hu).symm,hu'.found,hu'.last,hu'.gone,
      hu'.holder⟩

theorem refs_cons (s : State) (t ev e : Nat) :
    ({ s with held := (t, ev) :: s.held } : State).refs e = s.refs e + if ev = e then 1 else 0 := by
  simp only [refs,List.countP_cons,beq_iff_eq]
  omega

theorem refs_erase (hmem : (t, ev) ∈ s.held) (e : Nat) :
    s.refs e = ({ s with held := s.held.erase (t, ev) } : State).refs e +
      if ev = e then 1 else 0 := by
  have hperm := (List.perm_cons_erase hmem).countP_eq (fun p => p.2 == e)
  rw [List.countP_cons] at hperm
  simp only [refs,hperm,beq_iff_eq]
  omega

theorem undoomed_of_locked (h : Inv s) (hlock : (s.pc t).locked = true) (hpool : ev ∈ s.vnodes)
    (hself : (s.pc t).doomed ≠ some ev) (u : Nat) : (s.pc u).doomed ≠ some ev := by
  intro hu
  have hut : u ≠ t := fun he => hself (he ▸ hu)
  have hfree : (s.pc u).locked = false := by
    rw [Bool.eq_false_iff]
    intro hl
    have := (h.threads u).locks.mp hl
    rw [(h.threads t).locks.mp hlock] at this
    exact hut (Option.some.inj this).symm
  cases hpc : s.pc u with
  | reclaimKill e =>
    rw [hpc] at hu
    cases hu
    exact (h.threads u).gone _ hpc hpool
  | reclaimClose e | reclaimRemove e => simp [hpc,Pc.locked] at hfree
  | _ =>
    rw [hpc] at hu
    cases hu

theorem recount (h : Inv s) (hv : s.node ev = some v) {r : Nat} {held : List (Nat × Nat)}
    (hr : 0 < r) (hother : ∀ e, e ≠ ev → ({ s with held := held } : State).refs e = s.refs e)
    (hself : ({ s with held := held } : State).refs ev + v.refcount = s.refs ev + r)
    (hdoom : ∀ u, (s.pc u).doomed ≠ some ev)
    (hholder : ∀ u e, s.pc u = .decref e → (u, e) ∈ held) :
    Inv { s.setRefcount ev v r with held := held } := by
  have hnode : ∀ e w, update s.node ev (some { v with refcount := r }) e = some w →
      (e = ev ∧ w.refcount = r) ∨ (e ≠ ev ∧ s.node e = some w) := by
    intro e w hw
    rcases eq_or_ne e ev with rfl | hne
    · rw [update_self] at hw
      cases hw
      exact .inl ⟨rfl,rfl⟩
    · rw [update_of_ne hne] at hw
      exact .inr ⟨hne,hw⟩
  have hsome : ∀ e w, update s.node ev (some { v with refcount := r }) e = some w →
      ∃ w₀, s.node e = some w₀ := by
    intro e w hw
    rcases hnode e w hw with ⟨rfl,_⟩ | ⟨_,hw⟩
    · exact ⟨v,hv⟩
    · exact ⟨w,hw⟩
  refine ⟨fun e w hw => ?_,fun e he => ?_,h.once,fun e w hw => ?_,fun e w hw => ?_,
    fun e w hw => ?_,fun e he => ?_,fun u => ?_⟩
  · obtain ⟨w₀,hw₀⟩ := hsome e w hw
    exact h.fresh e w₀ hw₀
  · show ∃ w, update s.node ev _ e = some w
    rcases eq_or_ne e ev with rfl | hne
    · exact ⟨_,update_self ..⟩
    · rw [update_of_ne hne]
      exact h.pooled e he
  · obtain ⟨w₀,hw₀⟩ := hsome e w hw
    exact h.unpooled e w₀ hw₀
  · show w.refcount = ({ s with held := held } : State).refs e + (s.claim e).toList.length +
      s.leaked e
    rcases hnode e w hw with ⟨rfl,hw⟩ | ⟨hne,hw⟩
    · have := h.count e v hv
      omega
    · rw [hother e hne]
      exact h.count e w hw
  · rcases hnode e w hw with ⟨_,hw⟩ | ⟨_,hw⟩
    · omega
    · exact h.positive e w hw
  · have hne : e ≠ ev := by
      rintro rfl
      exact absurd he (by simp [setRefcount])
    have he : s.node e = none := by simpa [setRefcount,hne] using he
    obtain ⟨hrefs,hrest⟩ := h.dead e he
    exact ⟨(hother e hne).trans hrefs,hrest⟩
  · have hu := h.threads u
    refine ⟨hu.claims,hu.locks,hu.found,fun e he => ?_,hu.gone,hholder u⟩
    have hne : e ≠ ev := fun heq => hdoom u (heq ▸ he)
    obtain ⟨hrefs,hleak⟩ := hu.last e he
    exact ⟨(hother e hne).trans hrefs,hleak⟩

theorem incref (h : Inv s) (hpc : s.pc t = .loadIncref ev) (hv : s.node ev = some v) :
    Inv { s.setRefcount ev v (v.refcount + 1) with held := (t, ev) :: s.held } := by
  refine h.recount hv (Nat.succ_pos _) (fun e hne => ?_) ?_ ?_
    fun u e hu => List.mem_cons_of_mem _ ((h.threads u).holder e hu)
  · rw [refs_cons,if_neg (Ne.symm hne),Nat.add_zero]
  · rw [refs_cons,if_pos rfl]
    omega
  · exact h.undoomed_of_locked (t := t) (by rw [hpc]; rfl) ((h.threads t).found ev hpc)
      (by rw [hpc]; exact nofun)

theorem refs_pos (hmem : (t, ev) ∈ s.held) : 0 < s.refs ev := by
  rw [refs_erase hmem ev,if_pos rfl]
  omega

theorem decref (h : Inv s) (hpc : s.pc t = .idle) (hmem : (t, ev) ∈ s.held)
    (hv : s.node ev = some v) (hmany : 1 < v.refcount) :
    Inv { s.setRefcount ev v (v.refcount - 1) with held := s.held.erase (t, ev) } := by
  refine h.recount hv (by omega) (fun e hne => ?_) ?_ (fun u hu => ?_) fun u e hu => ?_
  · rw [refs_erase hmem e,if_neg (Ne.symm hne),Nat.add_zero]
  · have := refs_erase hmem ev
    rw [if_pos rfl] at this
    omega
  · have := ((h.threads u).last ev hu).1
    have := refs_pos hmem
    omega
  · have hut : u ≠ t := by
      rintro rfl
      rw [hpc] at hu
      cases hu
    rw [List.mem_erase_of_ne (by simp [hut])]
    exact (h.threads u).holder e hu

theorem node_next (h : Inv s) : s.node s.next = none := by
  cases hn : s.node s.next with
  | none => rfl
  | some v => exact absurd (h.fresh _ v hn) (Nat.lt_irrefl _)

theorem live_of_reclaiming (h : Inv s) (hpc : (s.pc t).reclaiming = some ev) :
    ∃ v, s.node ev = some v := by
  cases hn : s.node ev with
  | some v => exact ⟨v,rfl⟩
  | none =>
    have hclaim := ((h.threads t).claims ev).mpr hpc
    rw [(h.dead ev hn).2.1] at hclaim
    cases hclaim

theorem ne_next_of_reclaiming (h : Inv s) (hpc : (s.pc t).reclaiming = some ev) : ev ≠ s.next := by
  rintro rfl
  obtain ⟨v,hv⟩ := h.live_of_reclaiming hpc
  rw [h.node_next] at hv
  cases hv

theorem create (h : Inv s) (t handle : Nat) :
    Inv { s with
      node := Function.update s.node s.next (some ⟨handle, 1⟩)
      vnodes := s.vnodes ++ [s.next]
      held := (t, s.next) :: s.held
      next := s.next + 1 } := by
  obtain ⟨hrefs,hclaim,hleak⟩ := h.dead s.next h.node_next
  have hnew : ∀ e, e ∈ s.vnodes → e ≠ s.next := by
    rintro e he rfl
    obtain ⟨v,hv⟩ := h.pooled _ he
    rw [h.node_next] at hv
    cases hv
  have hcons : ∀ e, e ≠ s.next →
      ({ s with held := (t, s.next) :: s.held } : State).refs e = s.refs e := by
    intro e hne
    rw [refs_cons,if_neg (Ne.symm hne),Nat.add_zero]
  refine ⟨fun e w hw => ?_,fun e he => ?_,?_,fun e w hw he => ?_,fun e w hw => ?_,
    fun e w hw => ?_,fun e he => ?_,fun u => ?_⟩
  · rcases eq_or_ne e s.next with rfl | hne
    · exact Nat.lt_succ_self _
    · exact Nat.lt_succ_of_lt (h.fresh e w (by simpa [hne] using hw))
  · rcases eq_or_ne e s.next with rfl | hne
    · exact ⟨_,update_self ..⟩
    · have he : e ∈ s.vnodes := by simpa [hne] using he
      obtain ⟨v,hv⟩ := h.pooled e he
      exact ⟨v,by simpa [hne] using hv⟩
  · refine List.nodup_append.mpr ⟨h.once,List.nodup_singleton _,fun a ha b hb => ?_⟩
    rw [List.mem_singleton.mp hb]
    exact hnew a ha
  · have hmem : e ∉ s.vnodes ∧ e ≠ s.next := by simpa using he
    exact h.unpooled e w (by simpa [hmem.2] using hw) hmem.1
  · show w.refcount = ({ s with held := (t, s.next) :: s.held } : State).refs e +
      (s.claim e).toList.length + s.leaked e
    rcases eq_or_ne e s.next with rfl | hne
    · cases (update_self s.next _ s.node).symm.trans hw
      rw [refs_cons]
      simp [hrefs,hclaim,hleak]
    · rw [hcons e hne]
      exact h.count e w (by simpa [hne] using hw)
  · rcases eq_or_ne e s.next with rfl | hne
    · cases (update_self s.next _ s.node).symm.trans hw
      exact Nat.one_pos
    · exact h.positive e w (by simpa [hne] using hw)
  · have hne : e ≠ s.next := by
      rintro rfl
      exact absurd he (by simp)
    obtain ⟨hr,hrest⟩ := h.dead e (by simpa [hne] using he)
    exact ⟨(hcons e hne).trans hr,hrest⟩
  · have hu := h.threads u
    refine ⟨hu.claims,hu.locks,fun e he => List.mem_append_left _ (hu.found e he),fun e he => ?_,
      fun e he => ?_,fun e he => List.mem_cons_of_mem _ (hu.holder e he)⟩
    · have hne := h.ne_next_of_reclaiming (Pc.reclaiming_of_doomed he)
      obtain ⟨hr,hl⟩ := hu.last e he
      exact ⟨(hcons e hne).trans hr,hl⟩
    · have hpc : (s.pc u).reclaiming = some e := by
        rw [show s.pc u = .reclaimKill e from he]
        rfl
      simpa [h.ne_next_of_reclaiming hpc] using hu.gone e he

theorem claimed (h : Inv s) (hpc : s.pc t = .decref ev) (hv : s.node ev = some v)
    (hone : v.refcount = 1) :
    Inv ({ s with
      held := s.held.erase (t, ev)
      claim := Function.update s.claim ev (some t) }.goto t (.reclaimLock ev)) := by
  have ht := h.threads t
  rw [hpc] at ht
  have hmem := ht.holder ev rfl
  have hcount := h.count ev v hv
  have herase := refs_erase hmem
  have hself := herase ev
  rw [if_pos rfl] at hself
  have hclaim : s.claim ev = none := by
    cases hc : s.claim ev with
    | none => rfl
    | some u =>
      rw [hc,Option.toList_some,List.length_singleton] at hcount
      omega
  refine ⟨h.fresh,h.pooled,h.once,h.goto_unpooled (by rw [hpc]; exact nofun),fun e w hw => ?_,
    h.positive,fun e (he : s.node e = none) => ?_,
    goto_threads (s := { s with held := _, claim := _ }) ?_ fun u hut => ?_⟩
  · show w.refcount = ({ s with held := s.held.erase (t, ev) } : State).refs e +
      (update s.claim ev (some t) e).toList.length + s.leaked e
    have hw' := h.count e w hw
    have := herase e
    rcases eq_or_ne e ev with rfl | hne
    · rw [update_self,Option.toList_some,List.length_singleton]
      rw [hclaim,Option.toList_none,List.length_nil] at hw'
      omega
    · rw [update_of_ne hne]
      rw [if_neg (Ne.symm hne)] at this
      omega
  · obtain ⟨hr,hc,hl⟩ := h.dead e he
    have hne : e ≠ ev := by
      rintro rfl
      rw [hv] at he
      cases he
    have := herase e
    refine ⟨?_,by simpa [goto,hne] using hc,hl⟩
    show ({ s with held := s.held.erase (t, ev) } : State).refs e = 0
    omega
  · refine ⟨fun e => ?_,by rw [← ht.locks]; rfl,nofun,nofun,nofun,nofun⟩
    rcases eq_or_ne e ev with rfl | hne
    · simp [Pc.reclaiming]
    · dsimp only
      rw [update_of_ne hne,ht.claims]
      simp [Pc.reclaiming,Ne.symm hne]
  · have hu := h.threads u
    refine ⟨fun e => ?_,hu.locks,hu.found,fun e he => ?_,hu.gone,fun e he => ?_⟩
    · dsimp only
      rcases eq_or_ne e ev with rfl | hne
      · rw [update_self,← hu.claims,hclaim]
        simp [Ne.symm hut]
      · rw [update_of_ne hne]
        exact hu.claims e
    · obtain ⟨hr,hl⟩ := hu.last e he
      have := herase e
      refine ⟨?_,hl⟩
      show ({ s with held := s.held.erase (t, ev) } : State).refs e = 0
      omega
    · rw [List.mem_erase_of_ne (by simp [hut])]
      exact hu.holder e he

theorem lost (h : Inv s) (hrec : (s.pc t).reclaiming = some ev) (hlock : (s.pc t).locked = true) :
    Inv ((s.lose ev).goto t .unlock) := by
  have ht := h.threads t
  have hclaim := (ht.claims ev).mpr hrec
  have hother : ∀ u, u ≠ t → (s.pc u).reclaiming ≠ some ev := by
    intro u hut hu
    rw [← (h.threads u).claims,hclaim] at hu
    exact hut (Option.some.inj hu).symm
  have hkill : ∀ e, s.pc t ≠ .reclaimKill e := by
    intro e he
    rw [he] at hlock
    cases hlock
  refine ⟨h.fresh,h.pooled,h.once,h.goto_unpooled hkill,fun e w hw => ?_,h.positive,
    fun e (he : s.node e = none) => ?_,goto_threads (s := s.lose ev) ?_ fun u hut => ?_⟩
  · have hw' := h.count e w hw
    show w.refcount = s.refs e + (update s.claim ev none e).toList.length +
      update s.leaked ev (s.leaked ev + 1) e
    rcases eq_or_ne e ev with rfl | hne
    · rw [update_self,update_self,Option.toList_none,List.length_nil]
      rw [hclaim,Option.toList_some,List.length_singleton] at hw'
      omega
    · rw [update_of_ne hne,update_of_ne hne]
      exact hw'
  · have hne : e ≠ ev := by
      rintro rfl
      obtain ⟨v,hv⟩ := h.live_of_reclaiming hrec
      rw [hv] at he
      cases he
    obtain ⟨hr,hc,hl⟩ := h.dead e he
    exact ⟨hr,by simpa [goto,lose,hne] using hc,by simpa [goto,lose,hne] using hl⟩
  · refine ⟨fun e => ?_,?_,nofun,nofun,nofun,nofun⟩
    · simp only [lose,Pc.reclaiming]
      rcases eq_or_ne e ev with rfl | hne
      · simp
      · rw [update_of_ne hne,ht.claims,hrec]
        simp [Ne.symm hne]
    · exact iff_of_true rfl (ht.locks.mp hlock)
  · have hu := h.threads u
    refine ⟨fun e => ?_,hu.locks,hu.found,fun e he => ?_,hu.gone,hu.holder⟩
    · rcases eq_or_ne e ev with rfl | hne
      · simp [lose,hother u hut]
      · simp only [lose,update_of_ne hne]
        exact hu.claims e
    · have hne : e ≠ ev := fun heq => hother u hut (Pc.reclaiming_of_doomed (heq ▸ he))
      obtain ⟨hr,hl⟩ := hu.last e he
      exact ⟨hr,by simpa [lose,hne] using hl⟩

theorem removed (h : Inv s) (hpc : s.pc t = .reclaimRemove ev) :
    Inv ({ s with vnodes := s.vnodes.erase ev, elock := none }.goto t (.reclaimKill ev)) := by
  have ht := h.threads t
  rw [hpc] at ht
  have hlock := ht.locks.mp rfl
  have hsub : ∀ e, e ∈ s.vnodes.erase ev → e ∈ s.vnodes := fun e => List.mem_of_mem_erase
  refine ⟨h.fresh,fun e he => h.pooled e (hsub e he),h.once.erase ev,fun e w hw he => ?_,
    h.count,h.positive,h.dead,
    goto_threads (s := { s with vnodes := _, elock := _ }) ?_ fun u hut => ?_⟩
  · rcases eq_or_ne e ev with rfl | hne
    · exact ⟨t,by simp [goto]⟩
    · have he : e ∉ s.vnodes.erase ev := he
      rw [List.mem_erase_of_ne hne] at he
      exact h.goto_unpooled (t := t) (by rw [hpc]; exact nofun) e w hw he
  · refine ⟨ht.claims,by simp [Pc.locked],nofun,fun e he => ?_,fun e he => ?_,nofun⟩
    · exact ht.last e (by simpa [Pc.doomed] using he)
    · cases he
      exact List.Nodup.not_mem_erase h.once
  · have hu := h.threads u
    have hfree : ¬ (s.pc u).locked = true := by
      rw [hu.locks,hlock]
      exact fun he => hut (Option.some.inj he).symm
    refine ⟨hu.claims,by simp [hfree],fun e he => ?_,hu.last,
      fun e he hmem => hu.gone e he (hsub e hmem),hu.holder⟩
    rw [he] at hfree
    exact absurd rfl hfree

theorem killed (h : Inv s) (hpc : s.pc t = .reclaimKill ev) :
    Inv ({ s with
      node := Function.update s.node ev none
      claim := Function.update s.claim ev none }.goto t .idle) := by
  have ht := h.threads t
  rw [hpc] at ht
  have hclaim := (ht.claims ev).mpr rfl
  have hgone := ht.gone ev rfl
  obtain ⟨hrefs,hleak⟩ := ht.last ev rfl
  have hother : ∀ u, u ≠ t → (s.pc u).reclaiming ≠ some ev := by
    intro u hut hu
    rw [← (h.threads u).claims,hclaim] at hu
    exact hut (Option.some.inj hu).symm
  have hnode : ∀ e w, update s.node ev none e = some w → e ≠ ev ∧ s.node e = some w := by
    intro e w hw
    rcases eq_or_ne e ev with rfl | hne
    · rw [update_self] at hw
      cases hw
    · rw [update_of_ne hne] at hw
      exact ⟨hne,hw⟩
  refine ⟨fun e w hw => h.fresh e w (hnode e w hw).2,fun e he => ?_,h.once,
    fun e w hw he => ?_,fun e w hw => ?_,fun e w hw => h.positive e w (hnode e w hw).2,
    fun e he => ?_,goto_threads (s := { s with node := _, claim := _ }) ?_ fun u hut => ?_⟩
  · have hne : e ≠ ev := fun heq => hgone (heq ▸ he)
    obtain ⟨w,hw⟩ := h.pooled e he
    exact ⟨w,by simpa [goto,hne] using hw⟩
  · obtain ⟨hne,hw⟩ := hnode e w hw
    obtain ⟨u,hu⟩ := h.unpooled e w hw he
    refine ⟨u,(goto_ne ?_).trans hu⟩
    rintro rfl
    rw [hpc] at hu
    exact hne (Pc.reclaimKill.inj hu).symm
  · obtain ⟨hne,hw⟩ := hnode e w hw
    show w.refcount = s.refs e + (update s.claim ev none e).toList.length + s.leaked e
    rw [update_of_ne hne]
    exact h.count e w hw
  · show s.refs e = 0 ∧ update s.claim ev none e = none ∧ s.leaked e = 0
    rcases eq_or_ne e ev with rfl | hne
    · exact ⟨hrefs,update_self ..,hleak⟩
    · rw [update_of_ne hne]
      exact h.dead e (by simpa [goto,hne] using he)
  · refine ⟨fun e => ?_,ht.locks,nofun,nofun,nofun,nofun⟩
    rcases eq_or_ne e ev with rfl | hne
    · simp [Pc.reclaiming]
    · dsimp only
      rw [update_of_ne hne,ht.claims]
      simp [Pc.reclaiming,Ne.symm hne]
  · have hu := h.threads u
    refine ⟨fun e => ?_,hu.locks,hu.found,hu.last,hu.gone,hu.holder⟩
    dsimp only
    rcases eq_or_ne e ev with rfl | hne
    · simp [hother u hut]
    · rw [update_of_ne hne]
      exact hu.claims e

end Inv

end OS161.Vfs.Emufs
