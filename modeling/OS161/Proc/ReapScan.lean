import Mathlib.Data.Finset.Card
import OS161.Proc.Course

namespace OS161.Proc

open Function Relation

def stoppedChild (s : State) (t : Nat) (i : Int) : Bool :=
  (s.table i).any fun c => (s.mem c).ppid = (s.threads t).pid && (s.mem c).status = .stop

def Pc.ahead : Pc → Int
  | .scan i | .reapTest i => i
  | .reapPid i | .reapCv i | .reapFree i | .reapNull i => i + 1
  | _ => maxpid + 1

def Pc.claims : Pc → Nat
  | .reapPid _ => 1
  | _ => 0

def slotsFrom (i : Int) : Finset Int :=
  (Finset.range (maxpid + 1 - i).toNat).image fun k : Nat => i + k

def pending (s : State) (t : Nat) : Finset Int :=
  (slotsFrom (s.threads t).pc.ahead).filter fun i => stoppedChild s t i

def total (s : State) (t : Nat) : Nat :=
  (s.n t).length + (s.threads t).pc.claims + (pending s t).card

def Sparing (s : State) : Act → Prop
  | .thread t choice => total s t ≤ 20 ∧ Tidy s (.thread t choice)
  | .scribble _ _ => True
  | .overrun t _ => total s t ≤ 20

structure Reapable (s : State) (t : Nat) (i : Int) (n : Nat) : Prop where
  entry : ∃ hh, s.slot i = some (n, hh) ∧ hh ≠ .freed
  child : stoppedChild s t i = true

structure Sweep (s₀ s : State) (t : Nat) : Prop where
  due : (s.threads t).pc.stand.closing = true → ∀ k n, minpid ≤ k → k ≤ maxpid →
    Reapable s₀ t k n → ((s.life n).stage = .gone ∨ (s.life n).stage = .reaping t) ∨
      (s.threads t).pc.ahead ≤ k ∧ Reapable s t k n
  claimed : ∀ i hh, (s.threads t).pc.reaping = some (i, hh) → hh ≠ .freed → ∃ n, Reapable s t i n

section
variable {s s' : State} {t u : Nat} {choice : Choice} {i k : Int}

theorem stoppedChild_iff : stoppedChild s t i = true ↔
    ∃ c, s.table i = some c ∧ (s.mem c).ppid = (s.threads t).pid ∧ (s.mem c).status = .stop := by
  simp [stoppedChild,Option.any_eq_true]

theorem mem_slotsFrom : k ∈ slotsFrom i ↔ i ≤ k ∧ k ≤ maxpid := by
  simp only [slotsFrom,Finset.mem_image,Finset.mem_range]
  constructor
  · rintro ⟨j,hj,rfl⟩
    omega
  · exact fun h => ⟨(k - i).toNat,by omega,by omega⟩

theorem slotsFrom_insert (hi : i ≤ maxpid) : insert i (slotsFrom (i + 1)) = slotsFrom i := by
  ext k
  simp only [Finset.mem_insert,mem_slotsFrom]
  omega

theorem overruns_total (h : overruns s t = true) : 20 < total s t := by
  unfold overruns at h
  unfold total
  cases hpc : (s.threads t).pc with
  | reapPid i =>
    simp only [hpc,Bool.and_eq_true,decide_eq_true_eq] at h
    simp only [Pc.claims]
    omega
  | _ => rw [hpc] at h; cases h

end

section
variable {s s' : State} {t u n : Nat} {choice : Choice} {k : Int} (A : Agree s.forget)
  (he : Effect s u choice s') (htidy : Tidy s (.thread u choice))
include A

theorem Reapable.kept (h : Reapable s t k n) (he : Effect s u choice s')
    (htidy : Tidy s (.thread u choice)) (hpid : (s'.threads t).pid = (s.threads t).pid)
    (hmark : (s.threads u).pc ≠ .reapCv k ∧ (s.threads u).pc ≠ .reapFree k) :
    Reapable s' t k n := by
  obtain ⟨hh,hslot,hfr⟩ := h.entry
  obtain ⟨c,htab,hppid,hstop⟩ := stoppedChild_iff.mp h.child
  have hsame : s'.table k = s.table k ∧ s'.slot k = s.slot k := by
    have hshow := he.shows k
    generalize s'.table k = y at hshow ⊢
    generalize s'.slot k = z at hshow ⊢
    cases hshow with
    | same => exact ⟨rfl,rfl⟩
    | mark hpc => exact absurd hpc (not_or.mpr hmark)
    | clear hpc =>
      obtain ⟨m,hm,-⟩ := (A.threads u).reap k .freed ((Pc.reaping_forget _).trans (by rw [hpc]; rfl))
      rw [show s.slot k = some (m, .freed) from hm] at hslot
      cases hslot
      exact absurd rfl hfr
    | enter hpc hi =>
      simp only [Tidy,hpc] at htidy
      rw [hi,htidy] at htab
      cases htab
  have hstop' : (s'.mem c).status = .stop := by
    have hstore := he.stores c
    generalize s'.mem c = p at hstore ⊢
    cases hstore with
    | same | code => exact hstop
    | stop => rfl
    | write hfork hk hc => exact absurd hc (A.listed_ne hfork (by omega) hslot hfr htab)
  refine ⟨⟨hh,hsame.2.trans hslot,hfr⟩,stoppedChild_iff.mpr ⟨c,?_,?_,hstop'⟩⟩
  · rw [hsame.1,htab]
  · rw [(he.listed_kept A hslot hfr htab).2.1,hpid,hppid]

theorem Reapable.reaper (h : Reapable s t k n) (hlive : (s.threads t).pc.live = true)
    (hu : ∃ hh, (s.threads u).pc.reaping = some (k, hh)) : u = t := by
  obtain ⟨hh,hu⟩ := hu
  obtain ⟨h',hslot,hfr⟩ := h.entry
  obtain ⟨c,htab,hppid,-⟩ := stoppedChild_iff.mp h.child
  obtain ⟨m,hm,-,hpp⟩ := (A.threads u).reap k hh ((Pc.reaping_forget _).trans hu)
  obtain ⟨d,hd⟩ := A.entry k n h' hslot
  have hmn : m = n := (Prod.mk.inj (Option.some.inj (hm.symm.trans hslot))).1
  have hdc : d = c := Option.some.inj (hd.table.symm.trans htab)
  have hpid : (s.threads u).pid = (s.threads t).pid := by
    have hx : (s.life n).ppid = (s.threads u).pid := hmn ▸ hpp
    rw [← hx,← hppid,← hdc]
    exact (hd.ppid hfr).symm
  exact A.pid_inj ((Pc.live_forget _).trans (Pc.live_of_reaping hu))
    ((Pc.live_forget _).trans hlive) hpid

theorem Reapable.others (h : Reapable s t k n) (he : Effect s u choice s') (hne : t ≠ u)
    (htidy : Tidy s (.thread u choice)) (hlive : (s.threads t).pc.live = true) :
    Reapable s' t k n := by
  refine h.kept A he htidy (by rw [he.other A hne hlive]) ⟨fun hpc => ?_,fun hpc => ?_⟩
  · exact hne (h.reaper A hlive ⟨.sound,by rw [hpc]; rfl⟩).symm
  · exact hne (h.reaper A hlive ⟨.cvGone,by rw [hpc]; rfl⟩).symm

include he htidy

theorem Effect.settled (h : (s.life n).stage = .gone ∨ (s.life n).stage = .reaping t) :
    (s'.life n).stage = .gone ∨ (s'.life n).stage = .reaping t := by
  have hnext := (he.ages n).next A htidy
  generalize (s.life n).stage = st at hnext h
  generalize (s'.life n).stage = st' at hnext ⊢
  cases hnext with
  | stay => exact h
  | gone => exact .inl rfl
  | born | lost | start | ended | claim => rcases h with h | h <;> cases h

variable {s₀ : State}

theorem Sweep.other (h : Sweep s₀ s t) (hne : t ≠ u) : Sweep s₀ s' t := by
  have hback : (s'.threads t).pc.live = true → (s'.threads t).pc ≠ .user →
      s'.threads t = s.threads t := he.unmoved A hne
  constructor
  case due =>
    intro hc k n hlo hhi hr
    have hth := hback (Stand.live_of_closing hc) fun hx => by rw [hx] at hc; cases hc
    rw [hth] at hc ⊢
    rcases h.due hc k n hlo hhi hr with hst | ⟨hle,hk⟩
    · exact .inl (he.settled A htidy hst)
    · exact .inr ⟨hle,hk.others A he hne htidy (Stand.live_of_closing hc)⟩
  case claimed =>
    intro i hh hx hfr
    have hth := hback (Pc.live_of_reaping hx) fun hu => by rw [hu] at hx; cases hx
    rw [hth] at hx
    obtain ⟨n,hn⟩ := h.claimed i hh hx hfr
    exact ⟨n,hn.others A he hne htidy (Pc.live_of_reaping hx)⟩

end
section
variable {s₀ s s' : State} {t : Nat} {choice : Choice} (h : Sweep s₀ s t) (A : Agree s.forget)
  (he : Effect s t choice s') (hclosing : (s.threads t).pc.stand.closing = true)
include h A he hclosing

theorem Sweep.claimed_self (A' : Agree s'.forget) {i : Int} {hh : Health}
    (hr : (s'.threads t).pc.reaping = some (i, hh)) (hfr : hh ≠ .freed) : ∃ n, Reapable s' t i n := by
  obtain ⟨m,hm,-⟩ := (A'.threads t).reap i hh ((Pc.reaping_forget _).trans hr)
  obtain ⟨pc,hth,-⟩ := he.self A
  have hgo : s'.table = s.table ∧ s'.mem = s.mem → stoppedChild s t i = true →
      ∃ n, Reapable s' t i n := by
    intro hsame hc
    refine ⟨m,⟨hh,hm,hfr⟩,?_⟩
    rw [stoppedChild,hsame.1,hsame.2,hth]
    exact hc
  have hold : ∀ {pc h₀}, (s.threads t).pc = pc → pc.reaping = some (i, h₀) → h₀ ≠ .freed →
      stoppedChild s t i = true := fun hpc hx hfr => by
    obtain ⟨n,hn⟩ := h.claimed i _ (by rw [hpc]; exact hx) hfr
    exact hn.child
  cases he with
  | @turn lock z cs pc n hturn =>
    rw [State.threads_setPc_self] at hr
    have harr := hturn.arrives
    cases pc with
    | reapCv j =>
      cases hr
      exact hgo ⟨rfl,rfl⟩ (hold harr.1 rfl nofun)
    | reapPid | reapFree => exact harr.elim
    | reapNull => cases hr; exact absurd rfl hfr
    | _ => cases hr
  | claim hpc htab hppid hstop =>
    rw [State.threads_setPc_self] at hr
    cases hr
    exact hgo (by rw [reapStage_life]; exact ⟨rfl,rfl⟩) (stoppedChild_iff.mpr ⟨_,htab,hppid,hstop⟩)
  | spoil hpc =>
    rw [State.threads_setPc_self] at hr
    cases hr
    exact hgo ⟨rfl,rfl⟩ (hold hpc rfl nofun)
  | free =>
    rw [State.threads_setPc_self] at hr
    cases hr
    exact absurd rfl hfr
  | write hfork | enrol hfork =>
    rw [(Pc.stand_of_forking hfork).1] at hclosing
    cases hclosing
  | fork hpc =>
    rw [hpc] at hclosing
    cases hclosing
  | _ =>
    rw [State.threads_setPc_self] at hr
    cases hr

theorem Sweep.self (A' : Agree s'.forget) (htidy : Tidy s (.thread t choice)) : Sweep s₀ s' t := by
  refine ⟨fun hc k n hlo hhi hr => ?_,fun i hh hr hfr => h.claimed_self A he hclosing A' hr hfr⟩
  rcases h.due hclosing k n hlo hhi hr with hst | ⟨hle,hk⟩
  · exact .inl (he.settled A htidy hst)
  have hgo : (s'.threads t).pc.ahead ≤ k → ((s'.life n).stage = .gone ∨
      (s'.life n).stage = .reaping t) ∨ (s'.threads t).pc.ahead ≤ k ∧ Reapable s' t k n := by
    intro hx
    obtain ⟨pc,hth,-⟩ := he.self A
    refine .inr ⟨hx,hk.kept A he htidy (by rw [hth]) ⟨fun hpc => ?_,fun hpc => ?_⟩⟩ <;>
      simp [hpc,Pc.ahead] at hle
  have hout : ∀ {pc : Pc}, (s.threads t).pc = pc → pc.stand.closing = false → False := by
    intro pc hpc hx
    rw [hpc,hx] at hclosing
    cases hclosing
  cases he with
  | @turn lock z cs pc n hturn =>
    have harr := hturn.arrives
    rw [State.pc_setPc_self] at hc hgo ⊢
    cases pc with
    | reapTest | reapCv | reapNull =>
      refine hgo ?_
      first
        | rw [show (s.threads t).pc = _ from harr] at hle
        | rw [harr.1] at hle
      exact hle
    | scan | reapPid | reapFree | exitRelease => exact harr.elim
    | lockCheck r | lockTry r => cases r <;> cases hc
    | _ => cases hc
  | @pass i hpc hskip =>
    rw [State.pc_setPc_self] at hgo ⊢
    have hi : (s.threads t).pc.ahead = i := by rcases hpc with hpc | hpc <;> rw [hpc] <;> rfl
    rcases eq_or_ne k i with rfl | hne
    · obtain ⟨c,htab,hx⟩ := stoppedChild_iff.mp hk.child
      exact absurd hx (hskip c htab)
    · exact hgo (Int.lt_iff_add_one_le.mp (lt_of_le_of_ne (hi ▸ hle) hne.symm))
  | finish hpc hi =>
    rw [hpc] at hle
    exact absurd hhi (not_le.mpr (lt_of_lt_of_le hi hle))
  | @claim i c hpc =>
    rw [State.pc_setPc_self] at hgo ⊢
    rw [hpc] at hle
    rcases eq_or_ne k i with rfl | hne
    · obtain ⟨hh,hslot,-⟩ := hk.entry
      refine .inl (.inr ?_)
      simp [reapStage,hslot,State.setStage,State.setLife,State.setPc]
    · exact hgo (Int.lt_iff_add_one_le.mp (lt_of_le_of_ne hle hne.symm))
  | spoil hpc | free hpc | null hpc =>
    rw [State.pc_setPc_self] at hgo ⊢
    rw [hpc] at hle
    exact hgo hle
  | retire => rw [State.pc_setPc_self] at hc; cases hc
  | write hfork | enrol hfork | discard hfork | abandon hfork =>
    exact (hout rfl (by rw [(Pc.stand_of_forking hfork).1]; rfl)).elim
  | call hpc | leave hpc | stop hpc | code hpc | signal hpc | fork hpc | register hpc | start hpc =>
    exact (hout hpc rfl).elim

end

theorem Sparing.agree {s s' : State} {act : Act} (hok : Sparing s act) (A : Agree s.forget)
    (hstep : step s act = some s') : Agree s'.forget := by
  cases act with
  | thread u choice => exact A.tidy_step hok.2 hstep
  | scribble c p => exact A.tidy_step (show Tidy s (.scribble c p) from trivial) hstep
  | overrun u s₁ =>
    obtain ⟨hover,-⟩ := Option.ite_none_right_eq_some.mp hstep
    exact absurd hok (Nat.not_le.mpr (overruns_total hover))

theorem Sweep.step {s₀ s s' : State} {t : Nat} {act : Act} (h : Sweep s₀ s t) (A : Agree s.forget)
    (hok : Sparing s act) (hclosing : (s.threads t).pc.stand.closing = true)
    (hstep : Proc.step s act = some s') : Sweep s₀ s' t := by
  have hagree := hok.agree A hstep
  cases act with
  | thread u choice =>
    have he := effect_of_step A hstep
    rcases eq_or_ne t u with rfl | hne
    · exact h.self A he hclosing hagree hok.2
    · exact h.other A he hok.2 hne
  | scribble c p =>
    obtain ⟨hc,⟨⟩⟩ := Option.ite_none_left_eq_some.mp hstep
    have hkeep : ∀ {k n}, Reapable s t k n → Reapable (s.setMem c p) t k n := by
      intro k n hr
      obtain ⟨hh,hslot,hfr⟩ := hr.entry
      obtain ⟨d,htab,hx⟩ := stoppedChild_iff.mp hr.child
      have hmem : (s.setMem c p).mem d = s.mem d := update_of_ne (fun heq : d = c =>
        hc (heq ▸ (A.listed_alloc hslot hfr htab).1)) _ _
      exact ⟨hr.entry,stoppedChild_iff.mpr ⟨d,htab,hmem ▸ hx⟩⟩
    exact ⟨fun hc k n hlo hhi hr => (h.due hc k n hlo hhi hr).imp id fun hx => ⟨hx.1,hkeep hx.2⟩,
      fun i hh hx hfr => (h.claimed i hh hx hfr).imp fun _ => hkeep⟩
  | overrun u s₁ =>
    obtain ⟨hover,-⟩ := Option.ite_none_right_eq_some.mp hstep
    exact absurd hok (Nat.not_le.mpr (overruns_total hover))

structure Past (s s' : State) (t : Nat) (i : Int) : Prop where
  pc : (s'.threads t).pc = .scan (i + 1)
  awake : s'.asleep t = false
  room : (s'.n t).length ≤ 20
  count : (s'.n t).length = (s.n t).length + (stoppedChild s t i).toNat
  rest : ∀ k, i < k → stoppedChild s' t k = stoppedChild s t k

section
variable {s : State} {t : Nat} {i : Int}

theorem step_run {pc : Pc} {s' : State} (hpc : (s.threads t).pc = pc) (hawake : s.asleep t = false)
    (hrun : runStep s t pc = some s') : step s (.thread t .run) = some s' := by
  cases pc <;> simp_all [step,threadStep,runStep]

def Alone (t : Nat) (s s' : State) : Prop := step s (.thread t .run) = some s'

theorem reap_lap {c : Nat} (hpc : (s.threads t).pc = .reapPid i) (hawake : s.asleep t = false)
    (htab : s.table i = some c) (hroom : (s.n t).length < 20) :
    ∃ s', ReflTransGen (Alone t) s s' ∧
      s'.threads t = { s.threads t with pc := .scan (i + 1) } ∧ s'.sleepers = s.sleepers ∧
      s'.mem = s.mem ∧ s'.table = update s.table i none ∧
      s'.n = update s.n t (s.n t ++ [(s.mem c).pid]) := by
  let s₁ := ({ s with n := update s.n t (s.n t ++ [(s.mem c).pid]) }).setPc t (.reapCv i)
  let s₂ := (({ s₁ with cvs := update s₁.cvs (s.mem c).arrayCv none }).setHealth i .cvGone).setPc t
    (.reapFree i)
  let s₃ := (({ s₂ with alloc := update s₂.alloc c false }).setHealth i .freed).setPc t (.reapNull i)
  have h₁ : Alone t s s₁ := step_run hpc hawake (by simp only [runStep,htab,if_pos hroom]; rfl)
  have h₂ : Alone t s₁ s₂ := step_run (State.pc_setPc_self _ _ _) hawake
    (by simp only [runStep,show s₁.table i = some c from htab]; rfl)
  have h₃ : Alone t s₂ s₃ := step_run (State.pc_setPc_self _ _ _) hawake
    (by simp only [runStep,show s₂.table i = some c from htab]; rfl)
  have h₄ := step_run (s := s₃) (t := t) (by rw [State.threads_setPc_self]) hawake rfl
  refine ⟨_,((ReflTransGen.single h₁).tail h₂).tail h₃ |>.tail h₄,?_,?_⟩
  · rw [State.threads_setPc_self,reapStage_life]
    simp [s₁,s₂,s₃,State.setPc,State.setHealth]
  · have hlife := reapStage_life s₃ i .gone
    have hsleep := congrArg State.sleepers hlife
    have hmem := congrArg State.mem hlife
    have hn := congrArg State.n hlife
    exact ⟨hsleep,hmem,rfl,hn⟩

theorem scan_lap (hpc : (s.threads t).pc = .scan i) (hawake : s.asleep t = false)
    (hn : (s.n t).length ≤ 20) (hi : i ≤ maxpid) :
    ∃ s', ReflTransGen (Alone t) s s' ∧ (overruns s' t = true ∨ Past s s' t i) := by
  have hpass : ∀ {s' : State}, s' = s.setPc t (.scan (i + 1)) → stoppedChild s t i = false →
      Past s s' t i := by
    rintro _ rfl hs
    refine ⟨State.pc_setPc_self _ _ _,hawake,hn,by rw [hs]; rfl,fun k _ => ?_⟩
    simp only [stoppedChild,State.threads_setPc_self]
    rfl
  cases htab : s.table i with
  | none =>
    have hstep : runStep s t (.scan i) = some (s.setPc t (.scan (i + 1))) := by
      simp [runStep,Int.not_lt.mpr hi,htab]
    exact ⟨_,.single (step_run hpc hawake hstep),.inr (hpass rfl (by simp [stoppedChild,htab]))⟩
  | some c =>
    let s₁ := s.setPc t (.reapTest i)
    have hpid : (s₁.threads t).pid = (s.threads t).pid := by rw [State.threads_setPc_self]
    have h₁ : Alone t s s₁ := step_run hpc hawake (by simp [runStep,Int.not_lt.mpr hi,htab,s₁])
    have htest : (s₁.threads t).pc = .reapTest i := State.pc_setPc_self _ _ _
    by_cases hstop : stoppedChild s t i = true
    · let s₂ := (reapStage s₁ i (.reaping t)).setPc t (.reapPid i)
      have hsame : s₂.table = s.table ∧ s₂.mem = s.mem ∧ s₂.sleepers = s.sleepers ∧ s₂.n = s.n ∧
          s₂.threads t = { s.threads t with pc := .reapPid i } := by
        simp only [s₂,State.threads_setPc_self]
        rw [reapStage_life]
        exact ⟨rfl,rfl,rfl,rfl,by rw [State.threads_setPc_self]⟩
      obtain ⟨htab₂,hmem,hsleep,hn₂,hth⟩ := hsame
      obtain ⟨d,hd,hx⟩ := stoppedChild_iff.mp hstop
      cases htab.symm.trans hd
      have h₂ : Alone t s₁ s₂ := step_run htest hawake (by
        simp only [runStep,show s₁.table i = some c from htab]
        exact if_pos (hpid ▸ hx))
      have hclaim : (s₂.threads t).pc = .reapPid i := by rw [hth]
      rcases lt_or_ge (s.n t).length 20 with hroom | hfull
      · obtain ⟨s₃,h₃,hth₃,hsleep₃,hmem₃,htab₃,hn₃⟩ := reap_lap hclaim
          (by rw [State.asleep,hsleep]; exact hawake) (by rw [htab₂]; exact htab) (by rwa [hn₂])
        refine ⟨s₃,((ReflTransGen.single h₁).tail h₂).trans h₃,.inr ⟨by rw [hth₃],?_,?_,?_,?_⟩⟩
        · rw [State.asleep,hsleep₃,hsleep]
          exact hawake
        · rw [hn₃,update_self,hn₂,List.length_append]
          exact hroom
        · rw [hn₃,update_self,hn₂,hstop,List.length_append]
          rfl
        · intro k hk
          simp only [stoppedChild,hth₃,hth,hmem₃,hmem,htab₃,htab₂,update_of_ne (ne_of_gt hk)]
      · refine ⟨s₂,(ReflTransGen.single h₁).tail h₂,.inl ?_⟩
        simp [overruns,hclaim,htab₂,htab,hn₂,hfull]
    · have hstep : runStep s₁ t (.reapTest i) = some (s₁.setPc t (.scan (i + 1))) := by
        simp only [runStep,show s₁.table i = some c from htab]
        refine if_neg fun hx => hstop (stoppedChild_iff.mpr ⟨c,htab,?_⟩)
        rwa [hpid] at hx
      refine ⟨_,(ReflTransGen.single h₁).tail (step_run htest hawake hstep),
        .inr (hpass ?_ (Bool.eq_false_iff.mpr hstop))⟩
      simp [s₁,State.setPc]

theorem total_scan (hpc : (s.threads t).pc = .scan i) (hi : i ≤ maxpid) : total s t =
    (s.n t).length + (stoppedChild s t i).toNat +
      ((slotsFrom (i + 1)).filter fun k => stoppedChild s t k).card := by
  have hfresh : i ∉ (slotsFrom (i + 1)).filter fun k => stoppedChild s t k := by
    simp [mem_slotsFrom]
  simp only [total,pending,hpc,Pc.ahead,Pc.claims,← slotsFrom_insert hi,Finset.filter_insert]
  cases stoppedChild s t i with
  | false => rfl
  | true =>
    rw [if_pos rfl,Finset.card_insert_of_notMem hfresh,Bool.toNat_true]
    omega

theorem scan_overruns (hpc : (s.threads t).pc = .scan i) (hawake : s.asleep t = false)
    (hn : (s.n t).length ≤ 20) (hmany : 20 < total s t) :
    ∃ s', ReflTransGen (Alone t) s s' ∧ overruns s' t = true := by
  obtain ⟨m,hm⟩ : ∃ m : Nat, maxpid + 1 - i ≤ m := ⟨(maxpid + 1 - i).toNat,Int.self_le_toNat _⟩
  induction m generalizing s i with
  | zero =>
    have hempty : (maxpid + 1 - i).toNat = 0 := by omega
    simp only [total,pending,hpc,Pc.ahead,Pc.claims,slotsFrom,hempty,Finset.range_zero,
      Finset.image_empty,Finset.filter_empty,Finset.card_empty] at hmany
    omega
  | succ m ih =>
    rcases lt_or_ge maxpid i with hend | hi
    · exact ih hpc hawake hn hmany (by omega)
    obtain ⟨s₁,hrun,hover | hpast⟩ := scan_lap hpc hawake hn hi
    · exact ⟨s₁,hrun,hover⟩
    have htotal : total s₁ t = total s t := by
      rw [total_scan hpc hi,← hpast.count]
      simp only [total,pending,hpast.pc,Pc.ahead,Pc.claims]
      congr 2
      exact Finset.filter_congr fun k hk => by
        rw [hpast.rest k (Int.lt_iff_add_one_le.mpr (mem_slotsFrom.mp hk).1)]
    obtain ⟨s₂,hrest,hover⟩ := ih hpast.pc hpast.awake hpast.room (htotal ▸ hmany) (by omega)
    exact ⟨s₂,hrun.trans hrest,hover⟩

end

theorem total_le {s : State} (A : Agree s.forget) (t : Nat) :
    total s t ≤ (s.n t).length + 1 + s.next := by
  have hslot : ∀ i ∈ pending s t, ∃ n hh, s.slot i = some (n, hh) := by
    intro i hi
    obtain ⟨c,htab,-⟩ := stoppedChild_iff.mp (Finset.mem_filter.mp hi).2
    cases hs : s.slot i with
    | none => exact absurd ((A.vacant i).mpr hs) (fun hx => by cases htab.symm.trans hx)
    | some x => exact ⟨x.1,x.2,rfl⟩
  have hcard : (pending s t).card ≤ (Finset.range s.next).card := by
    refine Finset.card_le_card_of_injOn (fun i => ((s.slot i).map Prod.fst).getD 0) (fun i hi => ?_)
      fun i hi j hj heq => ?_
    · obtain ⟨n,hh,hs⟩ := hslot i hi
      obtain ⟨c,hc⟩ := A.entry i n hh hs
      simp only [hs,Finset.coe_range,Set.mem_Iio]
      exact hc.old
    · obtain ⟨n,hh,hs⟩ := hslot i hi
      obtain ⟨m,hh',hs'⟩ := hslot j hj
      obtain ⟨c,hc⟩ := A.entry i n hh hs
      obtain ⟨d,hd⟩ := A.entry j m hh' hs'
      have hnm : n = m := by simpa [hs,hs'] using heq
      exact hc.pid.symm.trans (hnm ▸ hd.pid)
  have hclaims : (s.threads t).pc.claims ≤ 1 := by
    cases (s.threads t).pc with
    | reapPid => exact le_refl 1
    | _ => exact Nat.zero_le 1
  rw [Finset.card_range] at hcard
  unfold total
  omega

def spares (s : State) : Act → Bool
  | .thread t _ => (s.n t).length + 1 + s.next ≤ 20 &&
    match (s.threads t).pc with
    | .reapTest i => (s.slot i).all fun y => (s.table i).all fun c =>
        (s.mem c).ppid ≠ (s.threads t).pid || (s.life y.1).stage = .ended
    | .cpChild .table f _ => s.table (s.mem f.temp).pid = none
    | _ => true
  | _ => false

theorem sparing_of_spares {s : State} {act : Act} (A : Agree s.forget) (hact : spares s act = true) :
    Sparing s act := by
  cases act with
  | thread t choice =>
    obtain ⟨hsize,hpc⟩ := Bool.and_eq_true_iff.mp hact
    refine ⟨(total_le A t).trans (of_decide_eq_true hsize),?_⟩
    dsimp only [Tidy]
    split
    · rename_i i hx
      simp only [hx] at hpc
      intro c n hl htab hslot hppid _
      simpa [hslot,htab,hppid] using hpc
    · rename_i f j hx
      simpa [hx] using hpc
    · trivial
  | _ => cases hact

def childThenParent : List Act :=
  forkWhole 0 1 1 2 ++ [.thread 1 (.exit 7)] ++ runs 1 410 ++ [.thread 0 (.exit 0)] ++ runs 0 6

end OS161.Proc
