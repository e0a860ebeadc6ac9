import OS161.Thread.Machine

namespace OS161.Thread

open Function

section
variable {p : Nat → Bool} {l : List Nat} {t : Nat}

theorem mem_wakes_all : t ∈ wakes p false l ↔ t ∈ l ∧ p t = true := by
  simp [wakes]

theorem mem_stays_iff {single : Bool} (h : l.Nodup) :
    t ∈ stays p single l ↔ t ∈ l ∧ t ∉ wakes p single l := by
  have hp := @wakes_append_stays_perm p single l
  rw [← hp.nodup_iff,List.nodup_append] at h
  rw [← hp.mem_iff,List.mem_append]
  constructor
  · exact fun ht => ⟨Or.inr ht,fun hw => h.2.2 t hw t ht rfl⟩
  · rintro ⟨hw | hs,hn⟩
    · exact absurd hw hn
    · exact hs

end

theorem Sys.mem_woken_all {s : Sys} {addr u : Nat} :
    u ∈ s.woken addr false ↔ u ∈ s.sleepers ∧ s.sleepaddr u = some addr := by
  simp [Sys.woken,mem_wakes_all,Sys.sleepsOn]

theorem Conserved.sleepers_nodup {s : Sys} (h : Conserved s) : s.sleepers.Nodup := by
  have := h.once
  rw [Sys.places,List.nodup_append] at this
  exact this.2.1

section
variable {P M : Type} {c c' : Conf P M} {addr : Nat} {single : Bool}

theorem asleep_wakeup (h : Conserved c.sys) (hsl : c'.sys.sleepers = c.sys.asleep addr single)
    (ha : c'.sys.sleepaddr = c.sys.sleepaddr) (a u : Nat) :
    c'.asleep a u ↔ c.asleep a u ∧ u ∉ c.sys.woken addr single := by
  unfold Conf.asleep Sys.woken
  rw [hsl,ha,Sys.asleep,mem_stays_iff h.sleepers_nodup]
  tauto

theorem wakeUp_ok (h : Conserved c.sys) {m : List Nat → M}
    (hk : c.wakeUp addr single m = .ok c') :
    ∃ q : Queue, q.Holds (c.sys.runqueue.toList ++ c.sys.woken addr single) ∧
      c' = { c with
        sys := c.sys.requeue (c.sys.asleep addr single) (c.sys.woken addr single) q
        mem := m (c.sys.woken addr single) } := by
  unfold Conf.wakeUp at hk
  obtain ⟨s,hs,hret⟩ := bind_ok hk
  cases hret
  obtain ⟨q,hq,-,rfl⟩ := Sys.wakeup_ok h.queue hs
  exact ⟨q,hq,rfl⟩

theorem Conf.perform_wakeup {t : Nat} {s : Sys} {m : List Nat → M} {p : P}
    (h : c.sys.wakeup true addr single = .ok s) :
    c.perform t (.wakeup addr single m p) =
      .ok ({ c with sys := s, mem := m (c.sys.woken addr single) }.jump t p) := by
  unfold Conf.perform Conf.wakeUp
  dsimp only
  rw [h]
  rfl

theorem Conf.step_run [DecidableEq P] {g : Prog P M} {t : Nat} {cmd : Cmd P M}
    (haway : c.sys.away = none) (hc : c.sys.curthread = some t) (hf : c.frame t = none)
    (he : g.exec t c.sys.curspl c.mem (c.pc t) = some cmd) (hk : c.perform t cmd = .ok c') :
    c.step g .run = some c' := by
  unfold Conf.step Conf.act
  rw [haway,hc]
  dsimp only
  rw [hf]
  dsimp only [Conf.runThread]
  rw [he,Option.map_some,hk]
  rfl

end

namespace Leveled
variable {P M : Type} {g : Prog P M} {level : P → Option Nat} {rest : P → Bool}
  {c c' : Conf P M} {t : Nat}

theorem away_none (h : Leveled g level rest c) (hc : c.sys.curthread = some t) :
    c.sys.away = none := by
  by_contra ha
  rw [h.alone ha] at hc
  cases hc

theorem not_asleep (h : Leveled g level rest c) (hc : c.sys.curthread = some t) :
    t ∉ c.sys.sleepers := by
  intro hs
  have := h.conserved.once
  rw [Sys.places,hc,List.nodup_append] at this
  exact this.2.2 t (by simp) t hs rfl

theorem critical_cur (h : Leveled g level rest c) (hp : level (c.pc t) ≠ some 0)
    (hr : rest (c.pc t) = false) (hu : level g.user = some 0) : c.sys.curthread = some t := by
  have huser : c.pc t ≠ g.user := by
    intro he
    exact hp (he ▸ hu)
  by_contra hne
  by_cases hl : c.sys.life t = .live
  · rcases h.others t hl hne with ⟨_,h0,_⟩ | ⟨_,_,h1,_⟩ | ⟨_,h2,_⟩
    · exact hp h0
    · rw [h1] at hr
      cases hr
    · exact huser h2
  · exact huser (h.dead t hl).2

theorem advance (h : Leveled g level rest c) (hc : c.sys.curthread = some t)
    (hf : c.frame t = none) {s : Sys} {m : M} {p : P} (hs : Conserved s)
    (hcur : s.curthread = some t) (haway : s.away = none) (hst : s.started = c.sys.started)
    (hlife : s.life = c.sys.life) (hp : level p = some s.curspl) :
    Leveled g level rest ({ c with sys := s, mem := m }.jump t p) where
  conserved := hs
  alone ha := absurd haway ha
  high hn := by
    rw [show s.curthread = none from hn] at hcur
    cases hcur
  started u hu := by
    obtain rfl : t = u := Option.some.inj (hcur.symm.trans hu)
    show s.started t = true
    rw [hst]
    exact h.started t hc
  cur u hu := by
    obtain rfl : t = u := Option.some.inj (hcur.symm.trans hu)
    refine Or.inl ⟨hf,?_⟩
    show level (update c.pc t p t) = some s.curspl
    rw [update_self]
    exact hp
  others u hl hu := by
    have hne : u ≠ t := by
      rintro rfl
      exact hu hcur
    have hl' : c.sys.life u = .live := by
      rw [← hlife]
      exact hl
    have hcur' : c.sys.curthread ≠ some u := by
      rw [hc]
      exact fun he => hne (Option.some.inj he).symm
    show (c.frame u = some 0 ∧ level (update c.pc t p u) = some 0 ∧
        s.started u = true) ∨ (c.frame u = none ∧
        level (update c.pc t p u) = some splHigh ∧
        rest (update c.pc t p u) = true ∧ s.started u = true) ∨
      (c.frame u = none ∧ update c.pc t p u = g.user ∧ s.started u = false)
    rw [update_of_ne hne,hst]
    exact h.others u hl' hcur'
  dead u hl := by
    have hl' : c.sys.life u ≠ .live := by
      rw [← hlife]
      exact hl
    have hne : u ≠ t := by
      rintro rfl
      exact hl' (h.conserved.cur_live hc)
    show c.frame u = none ∧ update c.pc t p u = g.user
    rw [update_of_ne hne]
    exact h.dead u hl'

variable (hg : Lawful g level rest) (h : Leveled g level rest c) (hc : c.sys.curthread = some t)
  (hf : c.frame t = none)

include hg h hc hf in
theorem fits_of_exec {cmd : Cmd P M} (he : g.exec t c.sys.curspl c.mem (c.pc t) = some cmd) :
    cmd.Fits level rest c.sys.curspl := by
  rcases h.cur t hc with ⟨_,hl⟩ | ⟨hf',_⟩
  · exact hg.exec t _ _ _ _ hl he
  · rw [hf] at hf'
    cases hf'

section
variable (h : Leveled g level rest c) (hc : c.sys.curthread = some t)
include h hc

theorem leave {s : Sys} {f : Option Nat} {p : P} {n : NextState} (hs : Conserved s)
    (hcur : s.curthread = none) (haway : s.away = some (t, n)) (hspl : s.curspl = splHigh)
    (hst : s.started = c.sys.started) (hother : ∀ u, u ≠ t → s.life u = c.sys.life u)
    (hself : (s.life t = .live ∧ ((f = some 0 ∧ level p = some 0) ∨ (f = none ∧
      level p = some splHigh ∧ rest p = true))) ∨ (s.life t ≠ .live ∧ f = none ∧ p = g.user)) :
    Leveled g level rest
      { c with sys := s, frame := Function.update c.frame t f, pc := Function.update c.pc t p } where
  conserved := hs
  alone _ := hcur
  high _ := hspl
  started u hu := by
    rw [show s.curthread = some u from hu] at hcur
    cases hcur
  cur u hu := by
    rw [show s.curthread = some u from hu] at hcur
    cases hcur
  others u hl _ := by
    show (update c.frame t f u = some 0 ∧ level (update c.pc t p u) = some 0 ∧
        s.started u = true) ∨ (update c.frame t f u = none ∧
        level (update c.pc t p u) = some splHigh ∧
        rest (update c.pc t p u) = true ∧ s.started u = true) ∨
      (update c.frame t f u = none ∧ update c.pc t p u = g.user ∧
        s.started u = false)
    rw [hst]
    by_cases hne : u = t
    · subst hne
      rw [update_self,update_self]
      rcases hself with ⟨_,⟨hf,hp⟩ | ⟨hf,hp,hr⟩⟩ | ⟨hn,_⟩
      · exact Or.inl ⟨hf,hp,h.started u hc⟩
      · exact Or.inr (Or.inl ⟨hf,hp,hr,h.started u hc⟩)
      · exact absurd hl hn
    · rw [update_of_ne hne,update_of_ne hne]
      refine h.others u ?_ ?_
      · rw [← hother u hne]
        exact hl
      · rw [hc]
        exact fun he => hne (Option.some.inj he).symm
  dead u hl := by
    show update c.frame t f u = none ∧ update c.pc t p u = g.user
    by_cases hne : u = t
    · subst hne
      rw [update_self,update_self]
      rcases hself with ⟨hn,_⟩ | ⟨_,hf,hp⟩
      · exact absurd hn hl
      · exact ⟨hf,hp⟩
    · rw [update_of_ne hne,update_of_ne hne]
      refine h.dead u ?_
      rw [← hother u hne]
      exact hl

theorem not_falling (a u : Nat) : ¬ c.falling a u := by
  rintro ⟨ha,_⟩
  rw [h.away_none hc] at ha
  cases ha

theorem performed_quiet {cmd : Cmd P M} (hpc : c'.pc = Function.update c.pc t cmd.pc)
    (hmem : c'.mem = cmd.mem c.mem []) (hw : cmd.woken c.sys = [])
    (hns : ∀ a, cmd ≠ .sleep a cmd.pc) (hsl : c'.sys.sleepers = c.sys.sleepers)
    (haddr : ∀ u, u ≠ t → c'.sys.sleepaddr u = c.sys.sleepaddr u) (haway : c'.sys.away = c.sys.away) :
    Performed c t cmd c' where
  pc := hpc
  mem := by rw [hw,hmem]
  asleep a u := by
    rw [hw]
    unfold Conf.asleep
    rw [hsl]
    constructor
    · rintro ⟨hu,ha⟩
      have hne : u ≠ t := fun he => h.not_asleep hc (he ▸ hu)
      exact ⟨⟨hu,haddr u hne ▸ ha⟩,List.not_mem_nil⟩
    · rintro ⟨⟨hu,ha⟩,_⟩
      have hne : u ≠ t := fun he => h.not_asleep hc (he ▸ hu)
      exact ⟨hu,(haddr u hne).symm ▸ ha⟩
  falling a u := by
    unfold Conf.falling
    rw [haway,h.away_none hc]
    exact ⟨fun hx => absurd hx.1.symm (Option.some_ne_none _),fun hx => absurd hx.2 (hns a)⟩

end

include hg h hc hf in
theorem perform {cmd : Cmd P M} (he : g.exec t c.sys.curspl c.mem (c.pc t) = some cmd)
    (hk : c.perform t cmd = .ok c') : Leveled g level rest c' ∧ Performed c t cmd c' := by
  have haway := h.away_none hc
  have hfits := h.fits_of_exec hg hc hf he
  cases cmd with
  | goto m p =>
    cases hk
    exact ⟨h.advance hc hf h.conserved hc haway rfl rfl hfits,
      h.performed_quiet hc rfl rfl rfl (fun _ => nofun) rfl (fun _ _ => rfl) rfl⟩
  | splx n p =>
    cases hk
    exact ⟨h.advance hc hf (h.conserved.splx n) hc haway rfl rfl hfits,
      h.performed_quiet hc rfl rfl rfl (fun _ => nofun) rfl (fun _ _ => rfl) rfl⟩
  | awake p =>
    cases hk
    exact ⟨h.advance hc hf (h.conserved.setAddr _) hc haway rfl rfl hfits,
      h.performed_quiet hc rfl rfl rfl (fun _ => nofun) rfl
        (fun u hu => update_of_ne hu _ _) rfl⟩
  | sleep addr p =>
    unfold Conf.perform at hk
    obtain ⟨s,hs,hret⟩ := bind_ok hk
    cases hret
    obtain ⟨hlevel,hspl,hrest⟩ := hfits
    have hcons : Conserved s := (h.conserved.setAddr
      (update c.sys.sleepaddr t (some addr))).switchFrom (n := .sleep) hc haway
        NextState.noConfusion hs
    have hlife := h.conserved.cur_live hc
    obtain rfl := Conserved.switchFrom_some hs hc
    refine ⟨?_,rfl,rfl,fun a u => ?_,fun a u => ?_⟩
    · have hframe : update c.frame t none = c.frame := by rw [← hf,update_eq_self]
      have := h.leave hc (f := none) (p := p) hcons rfl rfl hspl rfl (fun _ _ => rfl)
        (Or.inl ⟨hlife,Or.inr ⟨rfl,hlevel,hrest⟩⟩)
      rw [hframe] at this
      exact this
    · unfold Conf.asleep
      show (u ∈ c.sys.sleepers ∧ update c.sys.sleepaddr t (some addr) u = some a) ↔ _
      constructor
      · rintro ⟨hu,ha⟩
        have hne : u ≠ t := fun he => h.not_asleep hc (he ▸ hu)
        rw [update_of_ne hne] at ha
        exact ⟨⟨hu,ha⟩,List.not_mem_nil⟩
      · rintro ⟨⟨hu,ha⟩,_⟩
        have hne : u ≠ t := fun he => h.not_asleep hc (he ▸ hu)
        rw [update_of_ne hne]
        exact ⟨hu,ha⟩
    · show (some (t, NextState.sleep) = some (u, .sleep) ∧
        update c.sys.sleepaddr t (some addr) u = some a) ↔ u = t ∧ Cmd.sleep addr p = .sleep a p
      constructor
      · rintro ⟨ht,ha⟩
        obtain ⟨rfl,-⟩ := Prod.mk.inj (Option.some.inj ht)
        rw [update_self] at ha
        cases ha
        exact ⟨rfl,rfl⟩
      · rintro ⟨rfl,hcmd⟩
        cases hcmd
        exact ⟨rfl,update_self _ _ _⟩
  | wakeup addr single m p =>
    unfold Conf.perform at hk
    obtain ⟨c₁,hw,hret⟩ := bind_ok hk
    cases hret
    obtain ⟨q,hq,rfl⟩ := wakeUp_ok h.conserved hw
    refine ⟨h.advance hc hf (h.conserved.requeue hq wakes_append_stays_perm) hc haway rfl rfl hfits,
      rfl,rfl,asleep_wakeup h.conserved rfl rfl,fun a u => ?_⟩
    exact ⟨fun hx => absurd hx (h.not_falling hc a u),fun hx => nomatch hx.2⟩

include hg h hc hf in
theorem call {p : P} (hu : c.pc t = g.user) (he : g.entry t c.mem p = true) :
    Leveled g level rest (c.jump t p) := by
  refine h.advance hc hf h.conserved hc (h.away_none hc) rfl rfl ?_
  rcases h.cur t hc with ⟨_,hl⟩ | ⟨hf',_⟩
  · rw [hu,hg.user] at hl
    rw [hg.entry t c.mem p he,hl]
  · rw [hf] at hf'
    cases hf'

theorem keep (h : Leveled g level rest c) {s : Sys} {m : M} (hs : Conserved s)
    (hcur : s.curthread = c.sys.curthread) (haway : s.away = none)
    (hspl : s.curspl = c.sys.curspl) (hst : s.started = c.sys.started)
    (hlife : s.life = c.sys.life) : Leveled g level rest { c with sys := s, mem := m } where
  conserved := hs
  alone ha := absurd haway ha
  high hn := hspl.trans (h.high (hcur ▸ hn))
  started u hu := by
    rw [hst]
    exact h.started u (hcur ▸ hu)
  cur u hu := by
    show (c.frame u = none ∧ level (c.pc u) = some s.curspl) ∨ (c.frame u = some 0 ∧
      level (c.pc u) = some 0 ∧ s.curspl = splHigh)
    rw [hspl]
    exact h.cur u (hcur ▸ hu)
  others u hl hu := by
    have hl' : c.sys.life u = .live := by
      rw [← hlife]
      exact hl
    have hu' : c.sys.curthread ≠ some u := by
      rw [← hcur]
      exact hu
    have := h.others u hl' hu'
    rw [← hst] at this
    exact this
  dead u hl := h.dead u (by rw [← hlife]; exact hl)

theorem irq (h : Leveled g level rest c) (haway : c.sys.away = none)
    (hon : c.sys.curspl = 0 ∨ c.sys.curthread = none) {k : Kern (Conf P M)}
    (hi : c.irq g = some k) (hk : k = .ok c') : Leveled g level rest c' ∧ Effect g c c' := by
  obtain ⟨⟨addr,m⟩,hfire,hdo⟩ := Option.map_eq_some_iff.mp hi
  rw [hk] at hdo
  obtain ⟨c₁,hw,hret⟩ := bind_ok hdo
  cases hret
  have hhigh := h.conserved.splx splHigh
  obtain ⟨q,hq,rfl⟩ := wakeUp_ok (c := { c with sys := c.sys.splx splHigh }) hhigh hw
  refine ⟨h.keep ((hhigh.requeue hq wakes_append_stays_perm).splx c.sys.curspl) rfl haway rfl rfl
    rfl,?_⟩
  refine .irq addr m hfire hon rfl rfl (fun a u => ?_) (fun a u hx => ?_)
  · refine Iff.trans (@asleep_wakeup P M c _ addr false h.conserved ?_ ?_ a u) ?_
    · rfl
    · rfl
    · rw [Sys.mem_woken_all]
      unfold Conf.asleep
      constructor
      · rintro ⟨hx,hn⟩
        exact ⟨hx,fun ha => hn (ha ▸ hx)⟩
      · rintro ⟨hx,hn⟩
        exact ⟨hx,fun hy => hn (Option.some.inj (hx.2.symm.trans hy.2))⟩
  · have ha : c.sys.away = some (u, .sleep) := hx.1
    rw [haway] at ha
    cases ha

theorem passive_same (hmem : c'.mem = c.mem) (hpc : c'.pc = c.pc) (hnf : ∀ a u, ¬ c.falling a u)
    (hsl : c'.sys.sleepers = c.sys.sleepers)
    (haddr : ∀ u ∈ c.sys.sleepers, c'.sys.sleepaddr u = c.sys.sleepaddr u)
    (haway : ∀ u, c'.sys.away ≠ some (u, .sleep)) : Effect g c c' := by
  refine .passive hmem hpc (fun a u => ?_) (fun a u hx => haway u hx.1)
  unfold Conf.asleep
  rw [hsl]
  constructor
  · rintro ⟨hu,ha⟩
    exact Or.inl ⟨hu,haddr u hu ▸ ha⟩
  · rintro (⟨hu,ha⟩ | hx)
    · exact ⟨hu,(haddr u hu).symm ▸ ha⟩
    · exact absurd hx (hnf a u)

section
variable (h : Leveled g level rest c)
include h

theorem tick (hc : c.sys.curthread = some t) (hf : c.frame t = none) (h0 : c.sys.curspl = 0)
    (hk : c.tick t = .ok c') : Leveled g level rest c' ∧ Effect g c c' := by
  have haway := h.away_none hc
  unfold Conf.tick at hk
  obtain ⟨s,hs,hret⟩ := bind_ok hk
  cases hret
  have hcons : Conserved s := ((h.conserved.splx splHigh).splx splHigh).switchFrom (n := .ready)
    hc haway NextState.noConfusion hs
  obtain rfl := Conserved.switchFrom_some hs hc
  have hlevel : level (c.pc t) = some 0 := by
    rcases h.cur t hc with ⟨_,hl⟩ | ⟨hf',_⟩
    · rw [hl,h0]
    · rw [hf] at hf'
      cases hf'
  constructor
  · have := h.leave hc (f := some c.sys.curspl) (p := c.pc t) hcons rfl rfl rfl rfl
      (fun _ _ => rfl) (Or.inl ⟨h.conserved.cur_live hc,Or.inl ⟨by rw [h0],hlevel⟩⟩)
    rw [update_eq_self] at this
    exact this
  · exact passive_same rfl rfl (h.not_falling hc) rfl (fun _ _ => rfl) (fun _ => nofun)

theorem exit (hc : c.sys.curthread = some t) (hf : c.frame t = none) (hu : c.pc t = g.user)
    {s : Sys} (hs : c.sys.threadExit t = .ok s) :
    Leveled g level rest { c with sys := s } ∧ Effect g c { c with sys := s } := by
  have haway := h.away_none hc
  have hcons := h.conserved.threadExit hc haway hs
  unfold Sys.threadExit at hs
  obtain rfl := Conserved.switchFrom_some (assert_bind_ok hs).2 hc
  constructor
  · have := h.leave hc (f := none) (p := g.user) hcons rfl rfl rfl rfl
      (fun u hne => update_of_ne hne _ _)
      (Or.inr ⟨by simp,rfl,rfl⟩)
    rw [show update c.frame t none = c.frame by rw [← hf,update_eq_self],
      show update c.pc t g.user = c.pc by rw [← hu,update_eq_self]] at this
    exact this
  · exact passive_same rfl rfl (h.not_falling hc) rfl (fun _ _ => rfl) (fun _ => nofun)

theorem fork (hc : c.sys.curthread = some t) {n : Nat} (hn : c.sys.life n = .unused) {s : Sys}
    {r : Option Errno} (hs : c.sys.threadFork .plenty n = .ok (r, s)) :
    Leveled g level rest { c with sys := s } ∧ Effect g c { c with sys := s } := by
  have hcons := h.conserved.threadFork hn hs
  have hnl : c.sys.life n ≠ .live := by
    rw [hn]
    exact Life.noConfusion
  have hnt : n ≠ t := by
    rintro rfl
    exact hnl (h.conserved.cur_live hc)
  have haway := h.away_none hc
  have hnot : ∀ u, c.sys.away ≠ some (u, .sleep) := by
    rw [haway]
    exact fun _ h => by cases h
  obtain ⟨q,a,b,-,-,-,hcase⟩ := Sys.threadFork_cases h.conserved.queue hs
  obtain ⟨-,-,rfl⟩ | ⟨-,-,-,-,-,rfl⟩ := hcase
  · exact ⟨h.keep hcons rfl haway rfl rfl rfl,
      passive_same rfl rfl (h.not_falling hc) rfl (fun _ _ => rfl) hnot⟩
  refine ⟨⟨hcons,fun ha => absurd haway ha,h.high,fun u hu => ?_,h.cur,fun u hl hu => ?_,
    fun u hl => ?_⟩,passive_same rfl rfl (h.not_falling hc) rfl (fun u hu => ?_) hnot⟩
  · show update c.sys.started n false u = true
    obtain rfl : t = u := Option.some.inj (hc.symm.trans hu)
    rw [update_of_ne hnt.symm]
    exact h.started t hc
  · show (c.frame u = some 0 ∧ level (c.pc u) = some 0 ∧
        update c.sys.started n false u = true) ∨ (c.frame u = none ∧
        level (c.pc u) = some splHigh ∧ rest (c.pc u) = true ∧
        update c.sys.started n false u = true) ∨
      (c.frame u = none ∧ c.pc u = g.user ∧ update c.sys.started n false u = false)
    by_cases hun : u = n
    · subst hun
      obtain ⟨hf,hp⟩ := h.dead u hnl
      exact Or.inr (Or.inr ⟨hf,hp,update_self _ _ _⟩)
    · rw [update_of_ne hun]
      have hl' : update c.sys.life n .live u = .live := hl
      rw [update_of_ne hun] at hl'
      exact h.others u hl' hu
  · have hl' : update c.sys.life n .live u ≠ .live := hl
    have hun : u ≠ n := by
      rintro rfl
      exact hl' (update_self _ _ _)
    rw [update_of_ne hun] at hl'
    exact h.dead u hl'
  · have hun : u ≠ n := by
      rintro rfl
      refine hnl ((h.conserved.live u).mpr ?_)
      simp [Sys.places,hu]
    exact update_of_ne hun _ _

theorem stash {n : NextState} (ha : c.sys.away = some (t, n)) {s : Sys}
    (hs : c.sys.stash .plenty t n = .ok s) :
    Leveled g level rest { c with sys := s } ∧ Effect g c { c with sys := s } := by
  have hcons := h.conserved.stash ha hs
  cases n with
  | ready =>
    obtain ⟨q,-,-,rfl⟩ := Sys.stash_ready h.conserved.queue hs
    refine ⟨h.keep hcons rfl rfl rfl rfl rfl,passive_same rfl rfl (fun a u hx => ?_) rfl
      (fun _ _ => rfl) (fun _ => (fun h => by cases h))⟩
    have := hx.1
    rw [ha] at this
    cases this
  | zomb =>
    obtain ⟨m,-,-,rfl⟩ := Sys.stash_zomb hs
    refine ⟨h.keep hcons rfl rfl rfl rfl rfl,passive_same rfl rfl (fun a u hx => ?_) rfl
      (fun _ _ => rfl) (fun _ => (fun h => by cases h))⟩
    have := hx.1
    rw [ha] at this
    cases this
  | sleep =>
    obtain ⟨m,-,-,rfl⟩ := Sys.stash_sleep hs
    refine ⟨h.keep hcons rfl rfl rfl rfl rfl,.passive rfl rfl (fun a u => ?_) fun a u hx =>
      Option.some_ne_none _ hx.1.symm⟩
    unfold Conf.asleep Conf.falling
    rw [ha,List.mem_append,List.mem_singleton]
    constructor
    · rintro ⟨hu | rfl,hx⟩
      · exact Or.inl ⟨hu,hx⟩
      · exact Or.inr ⟨rfl,hx⟩
    · rintro (⟨hu,hx⟩ | ⟨ht,hx⟩)
      · exact ⟨Or.inl hu,hx⟩
      · obtain ⟨rfl,-⟩ := Prod.mk.inj (Option.some.inj ht)
        exact ⟨Or.inr rfl,hx⟩

theorem leaveTrap (hc : c.sys.curthread = some t) {spl : Nat} (hf : c.frame t = some spl) :
    Leveled g level rest
      { c with sys := c.sys.splx spl, frame := Function.update c.frame t none } where
  conserved := h.conserved.splx spl
  alone := h.alone
  high hn := by
    rw [show c.sys.curthread = none from hn] at hc
    cases hc
  started := h.started
  cur u hu := by
    obtain rfl : t = u := Option.some.inj (hc.symm.trans hu)
    refine Or.inl ⟨update_self _ _ _,?_⟩
    rcases h.cur t hc with ⟨hf',_⟩ | ⟨hf',hl,_⟩
    · rw [hf] at hf'
      cases hf'
    · rw [hf] at hf'
      cases hf'
      exact hl
  others u hl hu := by
    have hne : u ≠ t := by
      rintro rfl
      exact hu hc
    show (update c.frame t none u = some 0 ∧ _) ∨
      (update c.frame t none u = none ∧ _) ∨ (update c.frame t none u = none ∧ _)
    rw [update_of_ne hne]
    exact h.others u hl hu
  dead u hl := by
    have hne : u ≠ t := by
      rintro rfl
      exact hl (h.conserved.cur_live hc)
    show update c.frame t none u = none ∧ _
    rw [update_of_ne hne]
    exact h.dead u hl

theorem resumed (hc : c.sys.curthread = none) {s : Sys} (hs : Conserved s)
    (hcur : s.curthread = some t) (haway : s.away = none)
    (hlive : ∀ u, s.life u = .live ↔ c.sys.life u = .live)
    (hst : ∀ u, u ≠ t → s.started u = c.sys.started u) (hself : s.started t = true)
    (hspl : s.curspl = if c.sys.started t then splHigh else 0) (hu0 : level g.user = some 0) :
    Leveled g level rest { c with sys := s } where
  conserved := hs
  alone ha := absurd haway ha
  high hn := by
    rw [show s.curthread = none from hn] at hcur
    cases hcur
  started u hu := by
    obtain rfl : t = u := Option.some.inj (hcur.symm.trans hu)
    exact hself
  cur u hu := by
    obtain rfl : t = u := Option.some.inj (hcur.symm.trans hu)
    show (c.frame t = none ∧ level (c.pc t) = some s.curspl) ∨ (c.frame t = some 0 ∧
      level (c.pc t) = some 0 ∧ s.curspl = splHigh)
    have hl := (hlive t).mp (hs.cur_live hcur)
    rcases h.others t hl (by rw [hc]; nofun) with ⟨hf,hp,hst⟩ | ⟨hf,hp,_,hst⟩ | ⟨hf,hp,hst⟩
    · exact Or.inr ⟨hf,hp,by rw [hspl,hst,if_pos rfl]⟩
    · exact Or.inl ⟨hf,by rw [hspl,hst,if_pos rfl,hp]⟩
    · exact Or.inl ⟨hf,by rw [hspl,hst,if_neg Bool.false_ne_true,hp,hu0]⟩
  others u hl hu := by
    have hne : u ≠ t := by
      rintro rfl
      exact hu hcur
    show (c.frame u = some 0 ∧ level (c.pc u) = some 0 ∧ s.started u = true) ∨
      (c.frame u = none ∧ level (c.pc u) = some splHigh ∧ rest (c.pc u) = true ∧
        s.started u = true) ∨ (c.frame u = none ∧ c.pc u = g.user ∧ s.started u = false)
    rw [hst u hne]
    exact h.others u ((hlive u).mp hl) (by rw [hc]; nofun)
  dead u hl := h.dead u (mt (hlive u).mpr hl)

end

section
variable (hg : Lawful g level rest) (h : Leveled g level rest c)
include hg h

theorem switch (haway : c.sys.away = none) (hc : c.sys.curthread = none)
    (he : c.sys.runqueue.isEmpty = false) {s : Sys} (hs : c.sys.switchTo .plenty = .ok s) :
    Leveled g level rest { c with sys := s } ∧ Effect g c { c with sys := s } := by
  have hnf : ∀ a u, ¬ c.falling a u := by
    rintro a u ⟨ha,_⟩
    rw [haway] at ha
    cases ha
  obtain ⟨hcons,-⟩ := h.conserved.switchTo haway hc he hs
  obtain ⟨next,tail,q,hrq,hq,-,hrun⟩ := h.conserved.switchTo_eq he hs
  by_cases hst : c.sys.started next = true
  · rw [if_pos hst] at hrun
    have hmoved := h.conserved.pick haway hc hrq hq
    obtain rfl := hmoved.exorcise_eq haway hrun
    refine ⟨h.resumed hc hcons rfl haway (fun u => ?_) (fun _ _ => rfl) hst ?_ hg.user,
      passive_same rfl rfl hnf rfl (fun _ _ => rfl) fun u => ?_⟩
    · show (if u ∈ c.sys.zombies then Life.unused else c.sys.life u) = .live ↔ _
      split
      · rename_i hz
        have : c.sys.life u = .exited := by
          rw [h.conserved.exited]
          simp [Sys.dead,hz]
        simp [this]
      · rfl
    · rw [if_pos hst]
      exact h.high hc
    · rw [haway]
      exact fun h => by cases h
  · rw [if_neg hst] at hrun
    cases hrun
    refine ⟨h.resumed hc hcons rfl haway (fun u => Iff.rfl) (fun u hu => ?_) ?_ ?_ hg.user,
      passive_same rfl rfl hnf rfl (fun _ _ => rfl) fun u => ?_⟩
    · exact update_of_ne hu _ _
    · exact update_self _ _ _
    · rw [if_neg hst]
    · rw [haway]
      exact fun h => by cases h

theorem runThread [DecidableEq P] (hc : c.sys.curthread = some t) (hf : c.frame t = none)
    {a : Act P} (hk : c.runThread g t a = some (.ok c')) :
    Leveled g level rest c' ∧ Effect g c c' := by
  cases a with
  | call p =>
    obtain ⟨hu,⟨⟩⟩ := Option.ite_none_right_eq_some.mp hk
    exact ⟨h.call hg hc hf hu.1 hu.2,.call t p hc hu.1 hu.2 rfl⟩
  | run =>
    obtain ⟨cmd,he,hdo⟩ := Option.map_eq_some_iff.mp hk
    obtain ⟨hl,hp⟩ := h.perform hg hc hf he hdo
    exact ⟨hl,.perform t cmd hc he hp⟩
  | tick =>
    obtain ⟨h0,hk⟩ := Option.ite_none_right_eq_some.mp hk
    exact h.tick hc hf h0 (Option.some.inj hk)
  | irq =>
    obtain ⟨h0,hk⟩ := Option.ite_none_right_eq_some.mp hk
    exact h.irq (h.away_none hc) (Or.inl h0) hk rfl
  | fork n =>
    obtain ⟨hn,hk⟩ := Option.ite_none_right_eq_some.mp hk
    obtain ⟨⟨r,s⟩,hs,hret⟩ := bind_ok (Option.some.inj hk)
    cases hret
    exact h.fork hc hn.2 hs
  | exit =>
    obtain ⟨hu,hk⟩ := Option.ite_none_right_eq_some.mp hk
    obtain ⟨s,hs,hret⟩ := bind_ok (Option.some.inj hk)
    cases hret
    exact h.exit hc hf hu hs
  | stash => cases hk
  | switch => cases hk

theorem step [DecidableEq P] {a : Act P} (hs : c.step g a = some c') :
    Leveled g level rest c' ∧ Effect g c c' := by
  obtain ⟨k,hk,hok⟩ := Option.bind_eq_some_iff.mp hs
  obtain rfl := ok_of_toOption hok
  unfold Conf.act at hk
  cases haway : c.sys.away with
  | some p =>
    rw [haway] at hk
    cases a with
    | stash =>
      obtain ⟨s,hst,hret⟩ := bind_ok (Option.some.inj hk)
      cases hret
      exact h.stash haway hst
    | _ => cases hk
  | none =>
    cases hc : c.sys.curthread with
    | none =>
      rw [haway,hc] at hk
      cases a with
      | switch =>
        obtain ⟨he,hk⟩ := Option.ite_none_left_eq_some.mp hk
        obtain ⟨s,hst,hret⟩ := bind_ok (Option.some.inj hk)
        cases hret
        exact h.switch hg haway hc (Bool.eq_false_iff.mpr he) hst
      | irq => exact h.irq haway (Or.inr hc) hk rfl
      | _ => cases hk
    | some t =>
      rw [haway,hc] at hk
      dsimp only at hk
      cases hf : c.frame t with
      | some spl =>
        rw [hf] at hk
        cases a with
        | run =>
          cases hk
          exact ⟨h.leaveTrap hc hf,passive_same rfl rfl (h.not_falling hc) rfl (fun _ _ => rfl)
            fun u hx => Option.some_ne_none _ (hx.symm.trans haway)⟩
        | _ => cases hk
      | none =>
        rw [hf] at hk
        exact h.runThread hg hc hf hk

end

theorem start (g : Prog P M) (me : Nat) (m : M) (hu : level g.user = some 0) :
    Leveled g level rest (Conf.start g me m) where
  conserved := (Conserved.boot me).splx 0
  alone ha := absurd rfl ha
  high hn := nomatch hn
  started t ht := by
    obtain rfl : me = t := Option.some.inj ht
    exact beq_self_eq_true me
  cur t _ := Or.inl ⟨rfl,hu⟩
  others t hl ht := by
    exfalso
    have hl' : (if t = me then Life.live else .unused) = .live := hl
    split at hl'
    · rename_i he
      exact ht (congrArg some he.symm)
    · cases hl'
  dead t _ := ⟨rfl,rfl⟩

theorem along [DecidableEq P] (hg : Lawful g level rest) {me : Nat} {m : M} {acts : List (Act P)}
    {I : Conf P M → Prop} (h0 : I (Conf.start g me m))
    (hI : ∀ c c', Leveled g level rest c → Effect g c c' → I c → I c')
    (hrun : Run.exec (Conf.step g) (Conf.start g me m) acts = some c) :
    Leveled g level rest c ∧ I c := by
  refine Run.invariant (P := fun _ _ => True) (I := fun c => Leveled g level rest c ∧ I c) ?_
    ⟨start g me m hg.user,h0⟩ (Run.along_of_forall (P := fun _ => True) fun _ _ => trivial) hrun
  rintro c₁ a c₂ ⟨hl,hi⟩ _ hs
  obtain ⟨hl',he⟩ := hl.step hg hs
  exact ⟨hl',hI c₁ c₂ hl he hi⟩

end Leveled

end OS161.Thread
