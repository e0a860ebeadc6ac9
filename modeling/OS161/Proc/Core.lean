import OS161.Proc.Links

namespace OS161.Proc

open Function View

structure Built (v : View) (u : Nat) (f : Fork) (k : Nat) : Prop where
  old : f.proc < v.next
  thread : (v.threads f.thread).pc = .created u
  ptr : 3 ≤ k → (v.threads f.thread).proc = f.proc
  out : k < 5 → ∀ i h, v.slot i ≠ some (f.proc, h)

structure Core (v : View) : Prop where
  old : ∀ i n h, v.slot i = some (n, h) → n < v.next
  inj : ∀ i j n h h', v.slot i = some (n, h) → v.slot j = some (n, h') → i = j
  vacant : ∀ i, v.table i = none ↔ v.slot i = none
  build : ∀ u f k, v.role u = .build f k → Built v u f k
  builder : ∀ u u' f f' k k', v.role u = .build f k → v.role u' = .build f' k' →
    f.proc = f'.proc → u = u'

theorem Built.raise {v : View} {u : Nat} {f : Fork} {k k' : Nat} (hb : Built v u f k)
    (hptr : 3 ≤ k' → 3 ≤ k) (hout : k' < 5 → k < 5) : Built v u f k' :=
  ⟨hb.old,hb.thread,fun hk => hb.ptr (hptr hk),fun hk => hb.out (hout hk)⟩

theorem Built.congr {v v' : View} {u : Nat} {f : Fork} {k : Nat} (hb : Built v u f k)
    (hnext : v.next ≤ v'.next) (hth : v'.threads f.thread = v.threads f.thread)
    (hslot : k < 5 → ∀ i h, v'.slot i = some (f.proc, h) → ∃ h', v.slot i = some (f.proc, h')) :
    Built v' u f k :=
  ⟨Nat.lt_of_lt_of_le hb.old hnext,by rw [hth,hb.thread],fun hk => by rw [hth,hb.ptr hk],
    fun hk i h hs => by
      obtain ⟨h',hs'⟩ := hslot hk i h hs
      exact hb.out hk i h' hs'⟩

section Effects
variable {v : View} (h : Core v)
include h

theorem Core.frame {alloc : Nat → Bool} {procOf : Nat → Nat} {ids : Nat → Int × Int}
    {births : Nat → Birth} : Core { v with alloc, procOf, ids, births } :=
  ⟨h.old,h.inj,h.vacant,fun u f k hu => (h.build u f k hu).congr (Nat.le_refl _) rfl
    fun _ _ hh hs => ⟨hh,hs⟩,h.builder⟩

theorem Core.slot_of_table {i : Int} {c : Nat} (htab : v.table i = some c) :
    ∃ n hh, v.slot i = some (n, hh) := by
  have hsome : v.slot i ≠ none := fun hs => by
    rw [(h.vacant i).mpr hs] at htab
    cases htab
  obtain ⟨⟨n,hh⟩,hs⟩ := Option.ne_none_iff_exists'.mp hsome
  exact ⟨n,hh,hs⟩

theorem Core.go {u : Nat} {pc : Pc}
    (hbuild : ∀ f k, pc.role = .build f k → f.thread ≠ u ∧ Built v u f k ∧
      ∀ u' f' k', u' ≠ u → v.role u' = .build f' k' → f'.proc ≠ f.proc)
    (hapart : ∀ u' f k, u' ≠ u → v.role u' = .build f k → f.thread ≠ u) : Core (v.go u pc) where
  old := h.old
  inj := h.inj
  vacant := h.vacant
  build u' f k hr := by
    have hkeep : f.thread ≠ u → Built v u' f k → Built (v.go u pc) u' f k := fun hne hb =>
      hb.congr (Nat.le_refl _) (threads_go_ne v pc hne) fun _ _ hh hs => ⟨hh,hs⟩
    rcases eq_or_ne u' u with rfl | hne
    · rw [role_go_self] at hr
      obtain ⟨hft,hb,-⟩ := hbuild f k hr
      exact hkeep hft hb
    · rw [role_go_ne v pc hne] at hr
      exact hkeep (hapart u' f k hne hr) (h.build u' f k hr)
  builder u₁ u₂ f₁ f₂ k₁ k₂ h₁ h₂ heq := by
    rcases eq_or_ne u₁ u with rfl | hne₁
    · rcases eq_or_ne u₂ u₁ with rfl | hne₂
      · rfl
      · rw [role_go_self] at h₁
        rw [role_go_ne v pc hne₂] at h₂
        exact absurd heq.symm ((hbuild f₁ k₁ h₁).2.2 u₂ f₂ k₂ hne₂ h₂)
    · rcases eq_or_ne u₂ u with rfl | hne₂
      · rw [role_go_ne v pc hne₁] at h₁
        rw [role_go_self] at h₂
        exact absurd heq ((hbuild f₂ k₂ h₂).2.2 u₁ f₁ k₁ hne₁ h₁)
      · rw [role_go_ne v pc hne₁] at h₁
        rw [role_go_ne v pc hne₂] at h₂
        exact h.builder u₁ u₂ f₁ f₂ k₁ k₂ h₁ h₂ heq

theorem Core.apart {t u : Nat} {f : Fork} {k : Nat} (hlive : (v.threads t).pc.live = true)
    (hu : v.role u = .build f k) : f.thread ≠ t := by
  rintro rfl
  rw [(h.build u f k hu).thread] at hlive
  cases hlive

theorem Core.maker {t u : Nat} {f f' : Fork} {k k' : Nat} (ht : v.role t = .build f k)
    (hu : v.role u = .build f' k') (heq : f'.thread = f.thread) : u = t := by
  have hcreated := (h.build u f' k' hu).thread
  rw [heq,(h.build t f k ht).thread] at hcreated
  exact (Pc.created.inj hcreated).symm

theorem Core.others {t u : Nat} {f f' : Fork} {k k' : Nat} (ht : v.role t = .build f k)
    (hne : u ≠ t) (hu : v.role u = .build f' k') : f'.proc ≠ f.proc := fun heq =>
  hne (h.builder u t f' f k' k hu ht heq)

theorem Core.turn {t : Nat} {pc : Pc} (hlive : (v.threads t).pc.live = true)
    (hbuild : ∀ f k, pc.role = .build f k → (∃ k', v.role t = .build f k') ∧ Built v t f k) :
    Core (v.go t pc) := by
  refine h.go (fun f k hr => ?_) fun u' f k _ hu => h.apart hlive hu
  obtain ⟨⟨k',hk'⟩,hb⟩ := hbuild f k hr
  exact ⟨h.apart hlive hk',hb,fun u' f' k'' hne hu => h.others hk' hne hu⟩

theorem Core.advance {t : Nat} {f : Fork} {k k' : Nat} {pc : Pc} (ht : v.role t = .build f k)
    (hpc : pc.role = .build f k') (hb : Built v t f k') : Core (v.go t pc) := by
  refine h.turn (live_of_build ht) fun f' k'' hr => ?_
  rw [hpc] at hr
  cases hr
  exact ⟨⟨k,ht⟩,hb⟩

theorem Core.mark (i : Int) (health : Health) : Core (v.mark i health) where
  old j n hh hj := by
    obtain ⟨h₀,hs,-⟩ := v.slot_mark hj
    exact h.old j n h₀ hs
  inj i₁ i₂ n h₁ h₂ hs₁ hs₂ := by
    obtain ⟨x,hx,-⟩ := v.slot_mark hs₁
    obtain ⟨y,hy,-⟩ := v.slot_mark hs₂
    exact h.inj i₁ i₂ n x y hx hy
  vacant j := by
    have hfst := v.fst_mark i j health
    refine (h.vacant j).trans ?_
    rw [← Option.map_eq_none_iff (f := fun x : Nat × Health => x.1),← hfst,
      Option.map_eq_none_iff]
  build u f k hr := (h.build u f k hr).congr (Nat.le_refl _) rfl fun _ j hh hj => by
    obtain ⟨h₀,hs,-⟩ := v.slot_mark hj
    exact ⟨h₀,hs⟩
  builder := h.builder

theorem Core.clear (i : Int) : Core (v.clear i) := by
  refine ⟨fun j n hh hj => h.old j n hh (slot_clear hj),
    fun i₁ i₂ n h₁ h₂ hs₁ hs₂ => h.inj i₁ i₂ n h₁ h₂ (slot_clear hs₁) (slot_clear hs₂),?_,
    fun u f k hr => (h.build u f k hr).congr (Nat.le_refl _) rfl
      fun _ j hh hj => ⟨hh,slot_clear hj⟩,h.builder⟩
  intro j
  rcases eq_or_ne j i with rfl | hne
  · simp [View.clear]
  · simpa [View.clear,update_of_ne hne] using h.vacant j

theorem Core.setThread {t : Nat} {f : Fork} {k : Nat} {th : Thread} (ht : v.role t = .build f k)
    (hpc : th.pc = (v.threads f.thread).pc) (hproc : 3 ≤ k → th.proc = f.proc) :
    Core (v.setThread f.thread th) := by
  have hrole := v.role_setThread hpc
  refine ⟨h.old,h.inj,h.vacant,fun u f' k' hu => ?_,
    fun u u' f₁ f₂ k₁ k₂ h₁ h₂ => h.builder u u' f₁ f₂ k₁ k₂ (hrole u ▸ h₁) (hrole u' ▸ h₂)⟩
  rw [hrole] at hu
  have hb := h.build u f' k' hu
  rcases eq_or_ne f'.thread f.thread with heq | hne
  · obtain rfl := h.maker ht hu heq
    rw [ht] at hu
    cases hu
    exact ⟨hb.old,by rw [threads_setThread_self,hpc,hb.thread],
      fun hk => by rw [threads_setThread_self,hproc hk],hb.out⟩
  · exact hb.congr (Nat.le_refl _) (threads_setThread_ne v th hne) fun _ _ hh hs => ⟨hh,hs⟩

theorem Core.outfit {t : Nat} {f : Fork} {k k' : Nat} {th : Thread} {pc : Pc}
    (ht : v.role t = .build f k) (hpc : th.pc = (v.threads f.thread).pc)
    (hproc : 3 ≤ k' → th.proc = f.proc) (hk : k ≤ k') (hk' : k' < 5) (hrole : pc.role = .build f k') :
    Core ((v.setThread f.thread th).go t pc) := by
  have hset := h.setThread ht hpc fun h3 => hproc (Nat.le_trans h3 hk)
  have hr := (v.role_setThread hpc t).trans ht
  have hb := hset.build t f k hr
  exact hset.advance hr hrole ⟨hb.old,hb.thread,
    fun h3 => by rw [threads_setThread_self,hproc h3],fun _ => hb.out (by omega)⟩

theorem Core.register {t : Nat} {f : Fork} {i : Int} {c : Nat} (ht : v.role t = .build f 4)
    {pc : Pc} (hpc : pc.role = .build f 5) : Core ((v.register i c f.proc).go t pc) := by
  have hb := h.build t f 4 ht
  have hlive := live_of_build ht
  have hslot : ∀ {j n hh}, ((v.register i c f.proc).go t pc).slot j = some (n, hh) →
      (j = i ∧ n = f.proc ∧ hh = .sound) ∨ (j ≠ i ∧ v.slot j = some (n, hh)) := fun hj =>
    slot_register (c := c) hj
  have hrole : ∀ u f' k, ((v.register i c f.proc).go t pc).role u = .build f' k →
      (u = t ∧ f' = f ∧ k = 5) ∨ (u ≠ t ∧ v.role u = .build f' k) := by
    intro u f' k hu
    rcases eq_or_ne u t with rfl | hne
    · rw [role_go_self,hpc] at hu
      cases hu
      exact .inl ⟨rfl,rfl,rfl⟩
    · rw [role_go_ne _ pc hne] at hu
      exact .inr ⟨hne,hu⟩
  refine ⟨fun j n hh hj => ?_,fun i₁ i₂ n h₁ h₂ hs₁ hs₂ => ?_,fun j => ?_,fun u f' k hu => ?_,
    fun u u' f₁ f₂ k₁ k₂ h₁ h₂ heq => ?_⟩
  · rcases hslot hj with ⟨-,rfl,-⟩ | ⟨-,hs⟩
    · exact hb.old
    · exact h.old j n hh hs
  · rcases hslot hs₁ with ⟨heq₁,hn₁,-⟩ | ⟨-,hx₁⟩
    · rcases hslot hs₂ with ⟨heq₂,-⟩ | ⟨-,hx₂⟩
      · rw [heq₁,heq₂]
      · exact absurd (hn₁ ▸ hx₂) (hb.out (by decide) _ _)
    · rcases hslot hs₂ with ⟨-,hn₂,-⟩ | ⟨-,hx₂⟩
      · exact absurd (hn₂ ▸ hx₁) (hb.out (by decide) _ _)
      · exact h.inj i₁ i₂ n h₁ h₂ hx₁ hx₂
  · rcases eq_or_ne j i with rfl | hne
    · simp [View.register,View.go]
    · simpa [View.register,View.go,update_of_ne hne] using h.vacant j
  · rcases hrole u f' k hu with ⟨rfl,rfl,rfl⟩ | ⟨hne,hu⟩
    · have hft := h.apart hlive ht
      exact ⟨hb.old,by rw [threads_go_ne _ pc hft]; exact hb.thread,
        fun _ => (proc_go _ _ _ _).trans (hb.ptr (by decide)),fun hk => absurd hk (by decide)⟩
    · refine (h.build u f' k hu).congr (Nat.le_refl _)
        (threads_go_ne _ pc (h.apart hlive hu)) fun _ j hh hj => ?_
      rcases hslot hj with ⟨-,heq,-⟩ | ⟨-,hs⟩
      · exact absurd heq (h.others ht hne hu)
      · exact ⟨hh,hs⟩
  · have hbefore : ∀ w g k, ((v.register i c f.proc).go t pc).role w = .build g k →
        ∃ k', v.role w = .build g k' := by
      intro w g k hw
      rcases hrole w g k hw with ⟨rfl,rfl,-⟩ | ⟨-,hw⟩
      · exact ⟨4,ht⟩
      · exact ⟨k,hw⟩
    obtain ⟨_,hx₁⟩ := hbefore u f₁ k₁ h₁
    obtain ⟨_,hx₂⟩ := hbefore u' f₂ k₂ h₂
    exact h.builder u u' f₁ f₂ _ _ hx₁ hx₂ heq

theorem Core.finish {t : Nat} {f : Fork} {k : Nat} {pc : Pc} (ht : v.role t = .build f k)
    (hrole : pc.role = .other) : Core ((v.go f.thread pc).go t .user) := by
  have hlt := live_of_build ht
  rw [go_comm v pc (h.apart hlt ht)]
  have hfirst : Core (v.go t .user) := h.turn hlt fun f' k' hr => by cases hr
  refine hfirst.go (fun f' k' hr => ?_) fun u f' k' hu hr heq => ?_
  · rw [hrole] at hr
    cases hr
  · rcases eq_or_ne u t with rfl | hut
    · rw [role_go_self] at hr
      cases hr
    · rw [role_go_ne v _ hut] at hr
      exact hut (h.maker ht hr heq)

theorem Core.fork {t thread temp : Nat} (hpc : (v.threads t).pc = .user)
    (hthread : (v.threads thread).pc = .unborn ∨ (v.threads thread).pc = .zombie) :
    Core (v.fork t thread temp) := by
  have hne : t ≠ thread := fun heq => by
    rw [← heq,hpc] at hthread
    rcases hthread with hx | hx <;> cases hx
  have hgrow : Core { v with next := v.next + 1 } :=
    ⟨fun i n hh hs => Nat.lt_succ_of_lt (h.old i n hh hs),h.inj,h.vacant,
      fun u f k hu => (h.build u f k hu).congr (Nat.le_succ _) rfl fun _ _ hh hs => ⟨hh,hs⟩,
      h.builder⟩
  have hmade : Core (View.go { v with next := v.next + 1 } thread (.created t)) := by
    refine hgrow.go (fun f k hr => by cases hr) fun u f k _ hu heq => ?_
    have hcreated := (h.build u f k hu).thread
    rw [heq] at hcreated
    rcases hthread with hx | hx <;> rw [hx] at hcreated <;> cases hcreated
  have hlive : ((View.go { v with next := v.next + 1 } thread (.created t)).threads t).pc.live =
      true := by
    rw [threads_go_ne _ _ hne,hpc]
    rfl
  have hself : Core ((View.go { v with next := v.next + 1 } thread (.created t)).go t
      (.cpCv ⟨temp,thread,v.next⟩)) := by
    refine hmade.go (fun f k hr => ?_) fun u f k _ hu => hmade.apart hlive hu
    cases hr
    refine ⟨hne.symm,⟨Nat.lt_succ_self _,by rw [threads_go_self],fun hk => by omega,
      fun _ i hh hs => absurd (h.old i v.next hh hs) (Nat.lt_irrefl _)⟩,?_⟩
    intro u f' k' hu hr heq
    rcases eq_or_ne u thread with rfl | hut
    · rw [role_go_self] at hr
      cases hr
    · rw [role_go_ne _ _ hut] at hr
      exact absurd (heq ▸ (h.build u f' k' hr).old) (Nat.lt_irrefl _)
  have heq : v.fork t thread temp = { (View.go { v with next := v.next + 1 } thread
      (.created t)).go t (.cpCv ⟨temp,thread,v.next⟩) with
      alloc := update v.alloc temp true
      procOf := update v.procOf temp v.next
      ids := v.ids
      births := update v.births v.next ⟨(v.threads t).proc,-1,-1⟩ } := by
    simp [View.fork,View.go,update_of_ne hne]
  rw [heq]
  exact hself.frame

theorem Core.move {t : Nat} {v' : View} (hmove : Move v t v') : Core v' := by
  cases hmove with
  | stay => exact h
  | turn hlive hfrees hrole =>
    refine h.turn hlive fun f k hr => ?_
    rcases hrole with hr' | hr' <;> rw [hr'] at hr
    · cases hr
    · exact ⟨⟨k,hr⟩,h.build t f k hr⟩
  | look hpc | fetch hpc | accept hpc | pass hpc | skip hpc =>
    exact h.turn (by rw [hpc]; rfl) fun f k hr => by cases hr
  | @spoil i hpc =>
    exact (h.mark i .cvGone).turn (by show (v.threads t).pc.live = true; rw [hpc]; rfl)
      fun f k hr => by cases hr
  | @free i c hpc htab =>
    have hframe : Core (v.kfree c) := h.frame
    exact (hframe.mark i .freed).turn (by show (v.threads t).pc.live = true; rw [hpc]; rfl)
      fun f k hr => by cases hr
  | @drop i hpc =>
    exact (h.clear i).turn (by show (v.threads t).pc.live = true; rw [hpc]; rfl)
      fun f k hr => by cases hr
  | fork hpc hthread htemp => exact h.fork hpc hthread
  | @number f i hpc =>
    have ht : v.role t = .build f 0 := congrArg Pc.role hpc
    have hb : Built v t f 1 := (h.build t f 0 ht).raise (by omega) (by omega)
    exact (h.advance ht rfl hb).frame
  | @descend f i hpc =>
    have ht : v.role t = .build f 1 := congrArg Pc.role hpc
    have hb : Built v t f 2 := (h.build t f 1 ht).raise (by omega) (by omega)
    exact (h.advance ht rfl hb).frame
  | @attach f i hpc =>
    have ht : v.role t = .build f 2 := congrArg Pc.role hpc
    exact h.outfit ht rfl (fun _ => rfl) (by decide) (by decide) rfl
  | @label f i hpc =>
    have ht : v.role t = .build f 3 := congrArg Pc.role hpc
    have hptr := (h.build t f 3 ht).ptr (by decide)
    exact h.outfit ht rfl (fun _ => hptr) (by decide) (by decide) rfl
  | @register f i hpc =>
    have ht : v.role t = .build f 4 := congrArg Pc.role hpc
    exact h.register ht rfl
  | @start f hpc =>
    have ht : v.role t = .build f 5 := congrArg Pc.role hpc
    exact h.finish ht rfl
  | @discard f k hrole hk => exact (h.finish hrole rfl).frame
  | @abandon f hrole => exact h.finish hrole rfl

end Effects

theorem core_boot (mem : Nat → Process) : Core (boot mem).view := by
  have hrole : ∀ u, (boot mem).view.role u = .other := by
    intro u
    rcases eq_or_ne u 0 with rfl | hne
    · rfl
    · simp [View.role,State.view,boot,update_of_ne hne,Pc.role]
  have hslot : ∀ i n h, (boot mem).view.slot i = some (n, h) → i = minpid ∧ n = 0 := by
    intro i n h hs
    rcases eq_or_ne i minpid with rfl | hne
    · simp only [State.view,boot,update_self,Option.some.injEq,Prod.mk.injEq] at hs
      exact ⟨rfl,hs.1.symm⟩
    · simp [State.view,boot,update_of_ne hne] at hs
  refine ⟨fun i n h hs => ?_,fun i j n h h' hi hj => ?_,fun i => ?_,fun u f k hu => ?_,
    fun u u' f f' k k' hu => ?_⟩
  · obtain ⟨-,rfl⟩ := hslot i n h hs
    exact Nat.zero_lt_two
  · exact (hslot i n h hi).1.trans (hslot j n h' hj).1.symm
  · rcases eq_or_ne i minpid with rfl | hne
    · simp [State.view,boot]
    · simp [State.view,boot,update_of_ne hne]
  · rw [hrole] at hu
    cases hu
  · rw [hrole] at hu
    cases hu

end OS161.Proc
