import OS161.Proc.Exits

namespace OS161.Proc

open Function

def Orderly (s : State) : Act → Prop
  | .thread t _ =>
    match (s.threads t).pc with
    | .stopRead w => w.parent = true → (s.life w.proc).phase ≠ .stopping
    | .reapTest i => ∀ c n hl, s.table i = some c → s.slot i = some (n, hl) →
        (s.mem c).ppid = (s.threads t).pid → (s.mem c).status = .stop → (s.life n).stage = .ended
    | .cpChild .table f _ => s.table (s.mem f.temp).pid = none
    | _ => True
  | .scribble _ _ => True
  | .overrun _ _ => False

section Steps
variable {s s' : State} {t : Nat} {pc pc₀ : Pc}

theorem State.setPc_same (s : State) (t : Nat) : s.setPc t (s.threads t).pc = s := by
  simp [State.setPc]

theorem State.release_keeps (s : State) (t u cv : Nat) (hin : (u, .cv cv) ∈ s.sleepers) :
    (u, .cv cv) ∈ (s.release t).sleepers := by
  simp [State.release,hin]

theorem State.sleep_keeps (s : State) (t u cv : Nat) (chan : Chan) (hin : (u, .cv cv) ∈ s.sleepers) :
    (u, .cv cv) ∈ (s.sleep t chan).sleepers := by
  simp [State.sleep,hin]

variable (h : Agree s)
include h

theorem Agree.goto {lock : Lock} {z : List (Nat × Chan)} {cs : Nat → Bool}
    (hpc : (s.threads t).pc = pc₀) (hlive : pc₀.live = true)
    (hz : ∀ u cv, (u, .cv cv) ∈ s.sleepers → (u, .cv cv) ∈ z)
    (hphase : ∀ ph, pc₀.allows ph = true → pc.allows ph = true)
    (hrole : pc.exiting = none ∧ pc.forking = pc₀.forking ∧ pc.reaping = pc₀.reaping)
    (hwait : pc.waiting = pc₀.waiting ∨ pc.waiting = none)
    (hneeds : Needs (s.resync lock z cs) t pc) :
    Agree ((s.resync lock z cs).setPc t pc) := by
  rw [← hpc] at hlive hphase hrole hwait
  refine h.move hlive (fun u cv _ _ hin _ => .inl (hz u cv hin)) hphase hrole.1 hrole.2.1
    hrole.2.2 (fun w hw hp => ?_) hneeds
  rcases hwait with heq | heq
  · exact (h.threads t).wait w (heq ▸ hw) hp
  · rw [heq] at hw
    cases hw

section
variable (hpc : (s.threads t).pc = pc₀) (hlive : pc₀.live = true)
  (hphase : ∀ ph, pc₀.allows ph = true → pc.allows ph = true)
  (hrole : pc.exiting = none ∧ pc.forking = pc₀.forking ∧ pc.reaping = pc₀.reaping)
  (hwait : pc.waiting = pc₀.waiting ∨ pc.waiting = none)
include hpc hlive hphase hrole hwait

theorem Agree.turn (hneeds : Needs s t pc) : Agree (s.setPc t pc) :=
  @Agree.goto s t pc pc₀ h s.lock s.sleepers s.cs hpc hlive (fun _ _ => id) hphase hrole hwait hneeds

theorem Agree.acquire (hneeds : Needs s t pc) : Agree ((s.acquire t).setPc t pc) :=
  @Agree.goto s t pc pc₀ h (s.acquire t).lock s.sleepers (s.acquire t).cs hpc hlive (fun _ _ => id)
    hphase hrole hwait (Needs.congr rfl rfl rfl rfl hneeds)

theorem Agree.release (hneeds : Needs (s.release t) t pc) : Agree ((s.release t).setPc t pc) :=
  @Agree.goto s t pc pc₀ h (s.release t).lock (s.release t).sleepers (s.release t).cs hpc hlive
    (s.release_keeps t) hphase hrole hwait hneeds

end

theorem Agree.sleepOnLock (hlive : (s.threads t).pc.live = true)
    (hexit : (s.threads t).pc.exiting = none)
    (hneeds : Needs (s.sleep t .lock) t (s.threads t).pc) : Agree (s.sleep t .lock) := by
  have := @Agree.goto s t _ _ h s.lock (s.sleep t .lock).sleepers s.cs rfl hlive
    (fun u cv => s.sleep_keeps t u cv .lock) (fun _ => id) ⟨hexit,rfl,rfl⟩ (.inl rfl) hneeds
  rwa [show (s.threads t).pc = ((s.resync s.lock (s.sleep t .lock).sleepers s.cs).threads t).pc
    from rfl,State.setPc_same] at this

theorem Agree.recorded (a : Nat → List Int) : Agree { s with n := a } := by
  refine ⟨fun i n hl hi => ?_,h.vacant,h.fresh,h.cells,h.inj,h.parents,fun u => ?_⟩
  · obtain ⟨d,hd⟩ := h.entry i n hl hi
    exact ⟨d,hd.table,hd.pid,hd.old,hd.cell,hd.cv,hd.ppid,hd.parent,hd.stop,hd.code,hd.present,
      hd.broken⟩
  · have hl := h.threads u
    refine ⟨hl.alive,hl.slot,hl.table,hl.phase,hl.exit,fun f k hf => ?_,fun w hw hp => ?_,
      Needs.congr rfl rfl rfl rfl hl.needs,hl.reap,hl.makes,hl.reaps⟩
    · have hm := hl.fork f k hf
      exact ⟨hm.stage,hm.parent,hm.phase,hm.old,hm.thread,hm.cell,hm.cv,hm.pid,hm.ppid,hm.status,
        hm.ptr,hm.tpid,hm.out,hm.listed⟩
    · have hws := hl.wait w hw hp
      exact ⟨hws.slot,hws.table,hws.parent,hws.settled⟩

theorem Agree.phase_eq {p : Phase} (hpc : (s.threads t).pc = pc) (hlive : pc.live = true)
    (honly : ∀ q, pc.allows q = true → q = p) : (s.life (s.threads t).proc).phase = p := by
  subst hpc
  exact honly _ ((h.threads t).phase hlive)

theorem Agree.callExit {code : Int} (hpc : (s.threads t).pc = .user) :
    Agree ((s.setLife (s.threads t).proc
      { s.life (s.threads t).proc with exitArg := some code }).setPc t
      (.exitStatus code (s.threads t).arrayPtr)) := by
  have hlive : (s.threads t).pc.live = true := by rw [hpc]; rfl
  have hl := h.threads t
  have hph := h.phase_eq hpc rfl (p := .running) fun _ => of_decide_eq_true
  have hown := h.own_entry hlive
  have hr : Revised s t (s.mem (s.threads t).arrayPtr)
      { s.life (s.threads t).proc with exitArg := some code } :=
    ⟨rfl,rfl,rfl,⟨rfl,rfl⟩,.inl (hl.alive hlive),hown.stop (by decide),
      fun hx => absurd (hph.symm.trans hx) nofun,id,fun hx => absurd (hph.symm.trans hx) nofun⟩
  have hrev : Agree ((s.revise t (s.mem (s.threads t).arrayPtr)
      { s.life (s.threads t).proc with exitArg := some code }).setPc t
      (.exitStatus code (s.threads t).arrayPtr)) :=
    h.revise_live hlive (by rw [hpc]; exact ⟨rfl,rfl⟩) hr (hl.alive hlive)
      ⟨rfl,rfl,rfl,fun _ => trivial⟩ (by simp [Pc.allows,hph])
      (by rintro c p ⟨⟩; exact ⟨rfl,rfl⟩)
  simpa [State.revise,State.setMem] using hrev

theorem Agree.exitStatus {code : Int} {ptr : Nat} (hpc : (s.threads t).pc = .exitStatus code ptr) :
    Agree (((s.setMem ptr { s.mem ptr with status := .stop }).setLife (s.threads t).proc
      { s.life (s.threads t).proc with phase := .stopping }).setPc t (.exitCode code ptr)) := by
  have hlive : (s.threads t).pc.live = true := by rw [hpc]; rfl
  have hl := h.threads t
  have hph := h.phase_eq hpc rfl (p := .running) fun _ => of_decide_eq_true
  obtain ⟨rfl,harg⟩ := hl.exit code ptr (by rw [hpc]; rfl)
  refine h.revise_live hlive (by rw [hpc]; exact ⟨rfl,rfl⟩)
    ⟨rfl,rfl,rfl,⟨rfl,rfl⟩,.inl (hl.alive hlive),nofun,nofun,nofun,
      fun hx => absurd (hph.symm.trans hx) nofun⟩ (hl.alive hlive)
    ⟨rfl,rfl,rfl,fun _ => trivial⟩ rfl ?_
  rintro c p ⟨⟩
  exact ⟨rfl,harg⟩

theorem Agree.exitCode {code : Int} {ptr : Nat} (hpc : (s.threads t).pc = .exitCode code ptr) :
    Agree (((s.setMem ptr { s.mem ptr with exitcode := code }).setLife (s.threads t).proc
      { s.life (s.threads t).proc with phase := .exited }).setPc t (.lockCheck .exit)) := by
  have hlive : (s.threads t).pc.live = true := by rw [hpc]; rfl
  have hl := h.threads t
  have hph := h.phase_eq hpc rfl (p := .stopping) fun _ => of_decide_eq_true
  obtain ⟨rfl,harg⟩ := hl.exit code ptr (by rw [hpc]; rfl)
  exact h.revise_live hlive (by rw [hpc]; exact ⟨rfl,rfl⟩)
    ⟨rfl,rfl,rfl,⟨rfl,rfl⟩,.inl (hl.alive hlive),nofun,fun _ => harg,nofun,
      fun hx => absurd (hph.symm.trans hx) nofun⟩ (hl.alive hlive)
    ⟨rfl,rfl,rfl,fun _ => trivial⟩ rfl nofun

theorem Agree.exitSignal {cv : Nat} (hpc : (s.threads t).pc = .exitSignal cv) :
    Agree ((s.wakeupSingle (.cv cv)).setPc t (.scan minpid)) := by
  have hlive : (s.threads t).pc.live = true := by rw [hpc]; rfl
  have hl := h.threads t
  have hph := h.phase_eq hpc rfl (p := .exited) fun _ => of_decide_eq_true
  have hown := h.own_entry hlive
  have hcv : cv = (s.mem (s.threads t).arrayPtr).arrayCv := by
    have := hl.needs
    rw [hpc] at this
    exact this
  refine @Agree.move s t h s.lock (s.wakeupSingle (.cv cv)).sleepers s.cs _ hlive
    (fun u cv' c _ hin hc => ?_) ?_ rfl (by rw [hpc]; rfl) (by rw [hpc]; rfl) nofun trivial
  · by_cases heq : cv' = cv
    · right
      rw [heq,hcv,hown.cv rfl] at hc
      rw [← Option.some.inj hc,(hown.cell (by decide)).2]
      exact hph
    · left
      exact (List.mem_eraseP_of_neg (by simp [heq])).mpr hin
  · rw [hpc]
    intro ph hx
    have : ph = .exited := by simpa [Pc.allows] using hx
    rw [this]
    rfl

theorem Agree.not_reaped {i : Int} {n : Nat} {hl : Health} (hlive : (s.threads t).pc.live = true)
    (hreap : (s.threads t).pc.reaping = none) (hslot : s.slot i = some (n, hl))
    (hpar : (s.life n).parent = (s.threads t).proc) (u : Nat) : (s.life n).stage ≠ .reaping u := by
  intro hst
  obtain ⟨c,hc⟩ := h.entry i n hl hslot
  obtain ⟨j,hh,hr,hj⟩ := (h.threads u).reaps n hst
  obtain ⟨m,hm,-,hpp⟩ := (h.threads u).reap j hh hr
  have hmn : m = n := (Prod.mk.inj (Option.some.inj (hm.symm.trans hj))).1
  have hulive : (s.threads u).pc.live = true := by
    by_contra hx
    rw [Bool.not_eq_true] at hx
    rw [(Pc.no_role hx).2.2.2] at hr
    cases hr
  have hpid : (s.threads u).pid = (s.threads t).pid := by
    rw [← hpp,hmn,hc.parent,hpar]
    exact (h.own_entry hlive).pid
  rw [h.pid_inj hulive hlive hpid,hreap] at hr
  cases hr

theorem Agree.not_making {n : Nat} (hlive : (s.threads t).pc.live = true)
    (hfork : (s.threads t).pc.forking = none) (hpar : (s.life n).parent = (s.threads t).proc)
    (u : Nat) : (s.life n).stage ≠ .making u := by
  intro hst
  obtain ⟨f,k,hf,hfn⟩ := (h.threads u).makes n hst
  have hm := (h.threads u).fork f k hf
  have hulive : (s.threads u).pc.live = true := by
    by_contra hx
    rw [Bool.not_eq_true] at hx
    rw [(Pc.no_role hx).2.1] at hf
    cases hf
  have hproc : (s.threads u).proc = (s.threads t).proc := by
    rw [← hm.parent,hfn,hpar]
  have hal := (h.threads u).alive hulive
  rw [hproc,(h.threads t).alive hlive] at hal
  rw [← Stage.alive.inj hal,hfork] at hf
  cases hf

theorem Agree.getRead {i : Int} {c : Nat} (hpc : (s.threads t).pc = .getRead i)
    (htab : s.table i = some c) :
    Agree (s.setPc t (.lockCheck (.wait ⟨c, ((s.slot i).map (·.1)).getD s.next,
      (s.life (((s.slot i).map (·.1)).getD s.next)).parent = (s.threads t).proc⟩))) := by
  have hlive : (s.threads t).pc.live = true := by rw [hpc]; rfl
  obtain ⟨n,hh,hslot⟩ : ∃ n hh, s.slot i = some (n, hh) := by
    cases hx : s.slot i with
    | none => rw [(h.vacant i).mpr hx] at htab; cases htab
    | some x => exact ⟨x.1,x.2,rfl⟩
  have hn : ((s.slot i).map (·.1)).getD s.next = n := by rw [hslot]; rfl
  rw [hn]
  obtain ⟨d,hd⟩ := h.entry i n hh hslot
  refine @Agree.move s t h s.lock s.sleepers s.cs _ hlive (fun _ _ _ _ hin _ => .inl hin)
    (by rw [hpc]; exact fun _ => id) rfl (by rw [hpc]; rfl) (by rw [hpc]; rfl)
    (fun w hw hp => ?_) trivial
  cases hw
  have hpar : (s.life n).parent = (s.threads t).proc := by simpa using hp
  have hnr := h.not_reaped hlive (by rw [hpc]; rfl) hslot hpar
  have hnm := h.not_making hlive (by rw [hpc]; rfl) hpar
  have hsound : hh = .sound := by
    by_contra hx
    obtain ⟨u,hu⟩ := hd.broken hx
    exact hnr u hu
  refine ⟨?_,?_,hpar,?_⟩
  · rw [hd.pid,hslot,hsound]
  · rw [hd.pid,htab]
  · have hpres := hd.present
    generalize (s.life n).stage = st at hnr hnm hpres
    cases st with
    | unused => exact absurd rfl hpres.1
    | gone => exact absurd rfl hpres.2
    | making u => exact absurd rfl (hnm u)
    | reaping u => exact absurd rfl (hnr u)
    | _ => rfl

theorem Agree.read_code {w : Wait} (hw : Waits s t w) (hex : (s.life w.proc).phase = .exited) :
    Exited s w.proc (some (s.mem w.child).exitcode) :=
  ⟨hex,_,rfl,(h.waits_entry hw).code (by decide) hex⟩

theorem Agree.wait_ppid {w : Wait} (hlive : (s.threads t).pc.live = true) (hw : Waits s t w) :
    (s.mem w.child).ppid = (s.threads t).pid := by
  rw [(h.waits_entry hw).ppid (by decide)]
  exact h.waits_ppid hlive hw

theorem Agree.childStmt {f : Fork} {i : Int} {st : ChildStmt}
    (hpc : (s.threads t).pc = .cpChild st f i)
    (hvac : st = .table → s.table (s.mem f.temp).pid = none) : Agree (childStmt s t f i st) := by
  have hlive : (s.threads t).pc.live = true := by rw [hpc]; rfl
  have hf : ∀ k, (Pc.cpChild st f i).forking = some (f, k) → Making s t f k := fun k hk =>
    (h.threads t).fork f k (by rw [hpc]; exact hk)
  have hphase : ∀ ph, (s.threads t).pc.allows ph = true → (Pc.cpChild st f i).allows ph = true := by
    rw [hpc]
    exact fun _ => id
  cases st with
  | pid =>
    have hm := hf 1 rfl
    exact h.redraft hlive (by rw [hpc]; rfl) (by decide) rfl (by decide) hphase
      ⟨rfl,rfl,rfl,fun _ => trivial⟩ (fun _ _ _ => id) (fun _ => hm.cv (by decide))
      ⟨hm.stage,rfl,hm.phase,rfl,fun _ => rfl,fun hx => absurd hx (by decide),
        fun hx => absurd hx (by decide)⟩
  | test =>
    simp only [OS161.Proc.childStmt]
    split <;> exact h.turn hpc rfl (fun _ => id) ⟨rfl,rfl,rfl⟩ (.inl rfl) trivial
  | ppid =>
    have hm := hf 2 rfl
    exact h.redraft hlive (by rw [hpc]; rfl) (by decide) rfl (by decide) hphase
      ⟨rfl,rfl,rfl,fun _ => trivial⟩ (fun _ _ _ => id) (fun _ => hm.cv (by decide))
      ⟨hm.stage,rfl,hm.phase,rfl,fun _ => hm.pid (by decide),fun _ => ⟨rfl,rfl⟩,
        fun hx => absurd hx (by decide)⟩
  | status =>
    have hm := hf 3 rfl
    exact h.storeMem hlive (by rw [hpc]; rfl) (by decide) rfl (by decide) hphase
      ⟨rfl,rfl,rfl,fun _ => trivial⟩ (fun _ _ _ => id) (fun _ => hm.cv (by decide))
      ⟨hm.stage,rfl,hm.phase,rfl,fun _ => hm.pid (by decide),fun _ => hm.ppid (by decide),
        fun _ => rfl⟩
  | exitcode | processPtr =>
    have hm := hf 4 rfl
    exact h.storeMem hlive (by rw [hpc]; rfl) (by decide) rfl (by decide) hphase
      ⟨rfl,rfl,rfl,fun _ => trivial⟩ (fun _ _ _ => id) (fun _ => hm.cv (by decide))
      ⟨hm.stage,rfl,hm.phase,rfl,fun _ => hm.pid (by decide),fun _ => hm.ppid (by decide),
        fun _ => hm.status (by decide)⟩
  | arrayPtr =>
    exact h.enrol hlive (by rw [hpc]; rfl) ⟨by decide,by decide⟩ rfl rfl hphase
      ⟨rfl,rfl,rfl,fun _ => trivial⟩ rfl ⟨rfl,rfl⟩
      (fun hx => absurd hx (by decide))
  | threadPid =>
    have hm := hf 5 rfl
    exact h.enrol hlive (by rw [hpc]; rfl) ⟨by decide,by decide⟩ rfl rfl hphase
      ⟨rfl,rfl,rfl,fun _ => trivial⟩ rfl (hm.ptr (by decide))
      (fun _ => hm.pid (by decide))
  | table => exact h.register hpc (hvac rfl)

theorem Agree.lockTry {r : Ret} (hpc : (s.threads t).pc = .lockTry r) :
    Agree ((s.acquire t).setPc t (afterAcquire r)) := by
  cases r <;>
    exact h.acquire hpc rfl (fun _ => id) ⟨rfl,rfl,rfl⟩ (.inl rfl) trivial

theorem Agree.cvSleep {w : Wait} {cv : Nat} (hpc : (s.threads t).pc = .cvSleep w cv) :
    Agree (((s.release t).sleep t (.cv cv)).setPc t (.cvAsleep w cv)) := by
  have hneeds := (h.threads t).needs
  rw [hpc] at hneeds
  refine @Agree.goto s t _ _ h (s.release t).lock ((s.release t).sleep t (.cv cv)).sleepers
    (s.release t).cs hpc rfl (fun u c hin => ?_) (fun _ => id) ⟨rfl,rfl,rfl⟩ (.inl rfl)
    fun hp => ⟨hneeds hp,.inl ?_⟩
  · exact State.sleep_keeps _ _ _ _ _ (s.release_keeps t u c hin)
  · simp [State.resync,State.sleep]

theorem Agree.woken {w : Wait} {cv : Nat} (hpc : (s.threads t).pc = .cvAsleep w cv)
    (hasleep : s.asleep t = false) (hp : w.parent = true) : (s.life w.proc).phase = .exited := by
  have hneeds := (h.threads t).needs
  rw [hpc] at hneeds
  refine (hneeds hp).2.resolve_left fun hin => ?_
  rw [State.asleep,List.any_eq_false] at hasleep
  exact hasleep _ hin (by simp)

theorem Agree.runStep (hpc : (s.threads t).pc = pc) (hasleep : s.asleep t = false)
    (hok : Orderly s (.thread t .run)) (hstep : runStep s t pc = some s') : Agree s' := by
  have hlt := h.threads t
  have hwait := hlt.wait
  have hneeds := hlt.needs
  simp only [Orderly] at hok
  rw [hpc] at hwait hneeds hok
  cases pc with
  | exitStatus code ptr => cases hstep; exact h.exitStatus hpc
  | exitCode code ptr => cases hstep; exact h.exitCode hpc
  | exitCv =>
    cases hstep
    exact h.turn hpc rfl (fun _ => id) ⟨rfl,rfl,rfl⟩ (.inl rfl) rfl
  | exitSignal cv =>
    obtain ⟨-,hstep⟩ := Option.ite_none_right_eq_some.mp hstep
    cases hstep; exact (h.exitSignal hpc).recorded _
  | lockCheck r =>
    obtain ⟨-,⟨⟩⟩ := Option.ite_none_left_eq_some.mp hstep
    cases r <;> exact h.turn hpc rfl (fun _ => id) ⟨rfl,rfl,rfl⟩ (.inl rfl) trivial
  | lockTry r =>
    simp only [OS161.Proc.runStep] at hstep
    split at hstep
    · cases hstep
      refine h.sleepOnLock ?_ ?_ ?_ <;> rw [hpc]
      all_goals cases r <;> first | rfl | trivial
    · cases hstep; exact h.lockTry hpc
  | scan i | cpScan f i =>
    simp only [OS161.Proc.runStep] at hstep
    split at hstep
    · cases hstep; exact h.turn hpc rfl (fun _ => id) ⟨rfl,rfl,rfl⟩ (.inl rfl) trivial
    · split at hstep <;> cases hstep <;>
        exact h.turn hpc rfl (fun _ => id) ⟨rfl,rfl,rfl⟩ (.inl rfl) trivial
  | reapTest i =>
    simp only [OS161.Proc.runStep] at hstep
    split at hstep <;> rename_i htab
    · cases hstep
    · split at hstep <;> rename_i htest
      · cases hstep
        exact h.reapTest hpc htab htest.1 fun n hl hs => hok _ n hl htab hs htest.1 htest.2
      · cases hstep; exact h.turn hpc rfl (fun _ => id) ⟨rfl,rfl,rfl⟩ (.inl rfl) trivial
  | reapPid i =>
    simp only [OS161.Proc.runStep] at hstep
    split at hstep
    · cases hstep
    · obtain ⟨-,⟨⟩⟩ := Option.ite_none_right_eq_some.mp hstep
      exact (h.recorded _).turn hpc rfl (fun _ => id) ⟨rfl,rfl,rfl⟩ (.inl rfl) trivial
  | reapCv i =>
    simp only [OS161.Proc.runStep] at hstep
    split at hstep <;> rename_i htab
    · cases hstep
    · cases hstep; exact h.reapCv hpc htab
  | reapFree i =>
    simp only [OS161.Proc.runStep] at hstep
    split at hstep <;> rename_i htab
    · obtain ⟨n,hs,-⟩ := hlt.reap i .cvGone (by rw [hpc]; rfl)
      rw [(h.vacant i).mp htab] at hs
      cases hs
    · cases hstep; exact h.reapFree hpc htab
  | reapNull i => cases hstep; exact h.reapNull hpc
  | exitRelease => cases hstep; exact h.exitRelease hpc
  | getTest i =>
    simp only [OS161.Proc.runStep] at hstep
    split at hstep <;> cases hstep <;>
      exact h.turn hpc rfl (fun _ => id) ⟨rfl,rfl,rfl⟩ (.inl rfl) trivial
  | getRead i =>
    simp only [OS161.Proc.runStep] at hstep
    split at hstep <;> rename_i htab
    · cases hstep; exact h.turn hpc rfl (fun _ => id) ⟨rfl,rfl,rfl⟩ (.inl rfl) trivial
    · cases hstep; exact h.getRead hpc htab
  | ppidNe w =>
    simp only [OS161.Proc.runStep] at hstep
    split at hstep
    · cases hstep; exact h.turn hpc rfl (fun _ => id) ⟨rfl,rfl,rfl⟩ (.inr rfl) trivial
    · cases hstep; exact h.turn hpc rfl (fun _ => id) ⟨rfl,rfl,rfl⟩ (.inl rfl) trivial
  | refuse | cpRelease f =>
    cases hstep; exact h.release hpc rfl (fun _ => id) ⟨rfl,rfl,rfl⟩ (.inl rfl) trivial
  | ppidEq w =>
    simp only [OS161.Proc.runStep] at hstep
    split at hstep <;> rename_i htest
    · cases hstep; exact h.turn hpc rfl (fun _ => id) ⟨rfl,rfl,rfl⟩ (.inl rfl) trivial
    · cases hstep
      exact h.turn hpc rfl (fun _ => id) ⟨rfl,rfl,rfl⟩ (.inr rfl) fun hp =>
        absurd (h.wait_ppid (by rw [hpc]; rfl) (hwait w rfl hp)) htest
  | statusTest w =>
    simp only [OS161.Proc.runStep] at hstep
    split at hstep <;> rename_i htest
    · cases hstep
      exact h.turn hpc rfl (fun _ => id) ⟨rfl,rfl,rfl⟩ (.inl rfl) fun hp =>
        (h.waits_entry (hwait w rfl hp)).stop (by decide) htest
    · cases hstep; exact h.turn hpc rfl (fun _ => id) ⟨rfl,rfl,rfl⟩ (.inl rfl) trivial
  | stopRead w =>
    cases hstep
    refine h.turn hpc rfl (fun _ => id) ⟨rfl,rfl,rfl⟩ (.inr rfl) fun hp =>
      h.read_code (hwait w rfl hp) ?_
    cases hph : (s.life w.proc).phase with
    | running => exact absurd hph (hneeds hp)
    | stopping => exact absurd hph (hok hp)
    | exited => rfl
  | cvLoad w =>
    cases hstep
    exact h.turn hpc rfl (fun _ => id) ⟨rfl,rfl,rfl⟩ (.inl rfl) fun _ => rfl
  | cvHold w cv =>
    obtain ⟨-,hstep⟩ := Option.ite_none_right_eq_some.mp hstep
    cases hstep; exact h.turn hpc rfl (fun _ => id) ⟨rfl,rfl,rfl⟩ (.inl rfl) hneeds
  | cvSleep w cv => cases hstep; exact h.cvSleep hpc
  | cvAsleep w cv =>
    have hwoken := h.woken hpc hasleep
    obtain ⟨-,hstep⟩ := Option.ite_none_left_eq_some.mp hstep
    split at hstep
    · cases hstep
      exact @Agree.goto s t _ _ h s.lock (s.sleep t .lock).sleepers s.cs hpc rfl
        (fun u c => s.sleep_keeps t u c .lock) (fun _ => id) ⟨rfl,rfl,rfl⟩ (.inl rfl) hwoken
    · cases hstep
      exact h.acquire hpc rfl (fun _ => id) ⟨rfl,rfl,rfl⟩ (.inl rfl) hwoken
  | reacquire w =>
    simp only [OS161.Proc.runStep] at hstep
    split at hstep
    · cases hstep
      refine h.sleepOnLock ?_ ?_ ?_ <;> rw [hpc]
      · rfl
      · rfl
      · exact hneeds
    · cases hstep
      exact h.acquire hpc rfl (fun _ => id) ⟨rfl,rfl,rfl⟩ (.inl rfl) hneeds
  | wokenRead w =>
    cases hstep
    exact h.turn hpc rfl (fun _ => id) ⟨rfl,rfl,rfl⟩ (.inr rfl) fun hp =>
      h.read_code (hwait w rfl hp) (hneeds hp)
  | firstRelease w v | secondRelease w v =>
    cases hstep; exact h.release hpc rfl (fun _ => id) ⟨rfl,rfl,rfl⟩ (.inl rfl) hneeds
  | waitDone w v =>
    cases hstep; exact h.turn hpc rfl (fun _ => id) ⟨rfl,rfl,rfl⟩ (.inl rfl) trivial
  | cpChild st f i =>
    cases hstep
    refine h.childStmt hpc fun heq => ?_
    rw [heq] at hok
    exact hok
  | fullCv f => cases hstep; exact h.drop_cv hpc
  | fullFree f =>
    cases hstep
    exact h.discard (k := 0) (by rw [hpc]; rfl) (by rw [hpc]; rfl)
      (fun c hc => update_of_ne hc _ _) (fun hx => absurd hx (by decide))
      (by rw [hpc]; exact fun _ => id)
  | _ => cases hstep

theorem Agree.userCall {choice : Choice} (hpc : (s.threads t).pc = .user)
    (hstep : userCall s t choice = some s') : Agree s' := by
  cases choice with
  | exit code => cases hstep; exact h.callExit hpc
  | waitpid pid options statusNull =>
    simp only [OS161.Proc.userCall] at hstep
    split at hstep
    · cases hstep; exact h
    · cases hstep; exact h.turn hpc rfl (fun _ => id) ⟨rfl,rfl,rfl⟩ (.inl rfl) trivial
  | fork thread temp =>
    cases temp with
    | none => cases hstep; exact h
    | some temp =>
      simp only [OS161.Proc.userCall] at hstep
      split at hstep <;> rename_i hnew
      · cases hstep; exact h.startFork hpc hnew.1 hnew.2
      · cases hstep
  | ret =>
    obtain ⟨-,⟨⟩⟩ := Option.ite_none_right_eq_some.mp hstep
    refine (h.recorded _).turn hpc rfl (fun ph hx => ?_) ⟨rfl,rfl,rfl⟩ (.inl rfl) trivial
    have : ph = .running := by simpa [Pc.allows] using hx
    rw [this]
    rfl
  | _ => cases hstep

theorem Agree.cvCreate {f : Fork} {cv : Option Nat} (hpc : (s.threads t).pc = .cpCv f)
    (hstep : cvCreate s t f cv = some s') : Agree s' := by
  cases cv with
  | none =>
    cases hstep
    exact h.discard (k := 0) (by rw [hpc]; rfl) (by rw [hpc]; rfl)
      (fun c hc => update_of_ne hc _ _) (fun hx => absurd hx (by decide))
      (by rw [hpc]; exact fun _ => id)
  | some cv =>
    simp only [OS161.Proc.cvCreate] at hstep
    split at hstep <;> rename_i hfree
    · cases hstep; exact h.give_cv hpc hfree
    · cases hstep

theorem Agree.forkRest {f : Fork} {run ok : Bool}
    (hpc : (s.threads t).pc = if run then .tfRun f else .tfStack f) :
    Agree (forkRest s t f run ok) := by
  have hpc' : (s.threads t).pc = .tfRun f ∨ (s.threads t).pc = .tfStack f := by
    cases run
    · exact .inr hpc
    · exact .inl hpc
  cases ok with
  | false =>
    refine h.discard (k := 7) ?_ ?_ (fun _ _ => rfl) (fun _ => rfl) ?_
    all_goals rcases hpc' with hx | hx <;> rw [hx]
    all_goals first | rfl | exact fun _ => id
  | true =>
    cases run with
    | false => exact h.turn hpc rfl (fun _ => id) ⟨rfl,rfl,rfl⟩ (.inl rfl) trivial
    | true => exact h.start hpc

theorem Agree.scribble {c : Nat} {p : Process} (hc : s.alloc c = false) :
    Agree (s.setMem c p) := by
  have hmem : ∀ d, s.alloc d = true → (s.setMem c p).mem d = s.mem d := fun d hd =>
    update_of_ne (fun heq => by rw [heq,hc] at hd; cases hd) _ _
  refine ⟨fun i n hl hi => ?_,h.vacant,h.fresh,h.cells,h.inj,h.parents,fun u => ?_⟩
  · obtain ⟨d,hd⟩ := h.entry i n hl hi
    have hdm : hl ≠ .freed → (s.setMem c p).mem d = s.mem d := fun hx => hmem d (hd.cell hx).1
    exact ⟨d,hd.table,hd.pid,hd.old,hd.cell,
      fun hx => by rw [hdm (by rw [hx]; decide)]; exact hd.cv hx,
      fun hx => by rw [hdm hx]; exact hd.ppid hx,hd.parent,
      fun hx => by rw [hdm hx]; exact hd.stop hx,fun hx => by rw [hdm hx]; exact hd.code hx,
      hd.present,hd.broken⟩
  · have hl := h.threads u
    refine ⟨hl.alive,hl.slot,hl.table,hl.phase,hl.exit,fun f k hf => ?_,fun w hw hp => ?_,?_,
      hl.reap,hl.makes,hl.reaps⟩
    · have hm := hl.fork f k hf
      have hfm := hmem f.temp hm.cell.1
      exact ⟨hm.stage,hm.parent,hm.phase,hm.old,hm.thread,hm.cell,
        by rw [hfm]; exact hm.cv,by rw [hfm]; exact hm.pid,by rw [hfm]; exact hm.ppid,
        by rw [hfm]; exact hm.status,hm.ptr,hm.tpid,hm.out,hm.listed⟩
    · have hws := hl.wait w hw hp
      exact ⟨hws.slot,hws.table,hws.parent,hws.settled⟩
    · have hneeds := hl.needs
      have hwaits : ∀ w, (s.threads u).pc.waiting = some w → w.parent = true →
          (s.setMem c p).mem w.child = s.mem w.child := fun w hw hp =>
        hmem _ ((h.waits_entry (hl.wait w hw hp)).cell (by decide)).1
      have hown : (s.threads u).pc.live = true →
          (s.setMem c p).mem (s.threads u).arrayPtr = s.mem (s.threads u).arrayPtr := fun hx =>
        hmem _ ((h.own_entry hx).cell (by decide)).1
      change Needs (s.setMem c p) u (s.threads u).pc
      generalize (s.threads u).pc = pc at hneeds hwaits hown
      cases pc with
      | cvHold w cv | cvSleep w cv | cvAsleep w cv =>
        exact fun hp => by rw [hwaits w rfl hp]; exact hneeds hp
      | exitSignal cv => exact Eq.trans hneeds (by rw [State.threads_setMem,hown rfl])
      | _ => exact hneeds

theorem Agree.step {act : Act} (hok : Orderly s act) (hstep : step s act = some s') :
    Agree s' := by
  cases act with
  | thread t choice =>
    obtain ⟨hasleep,hmove⟩ := threadStep_cases hstep
    rcases hmove with ⟨hpc,hs⟩ | ⟨f,cv,hpc,-,hs⟩ | ⟨f,run,ok,hpc,-,hs⟩ | ⟨-,hs⟩
    · exact h.userCall hpc hs
    · exact h.cvCreate hpc hs
    · exact hs ▸ h.forkRest hpc
    · exact h.runStep rfl hasleep hok hs
  | scribble c p =>
    simp only [OS161.Proc.step] at hstep
    split at hstep <;> rename_i hc
    · cases hstep
    · cases hstep; exact h.scribble (by simpa using hc)
  | overrun => exact hok.elim

end Steps

theorem agree_boot (mem : Nat → Process) : Agree (boot mem) := by
  have hslot : ∀ i n hl, (boot mem).slot i = some (n, hl) → i = minpid ∧ n = 0 ∧ hl = .sound := by
    intro i n hl hi
    by_cases hm : i = minpid
    · simp [boot,hm] at hi
      exact ⟨hm,hi.1.symm,hi.2.symm⟩
    · simp [boot,update_of_ne hm] at hi
  have hlive : ∀ u, u ≠ 0 → ((boot mem).threads u).pc.live = false := by
    intro u hu
    simp [boot,update_of_ne hu,Pc.live]
  have hown : ∀ n u, ((boot mem).life n).stage ≠ .making u ∧
      ((boot mem).life n).stage ≠ .reaping u := by
    intro n u
    rcases n with _ | _ | n
    · exact ⟨(fun h => by cases h),(fun h => by cases h)⟩
    · exact ⟨(fun h => by cases h),(fun h => by cases h)⟩
    · exact ⟨(fun h => by cases h),(fun h => by cases h)⟩
  have hcell : ∀ c, (boot mem).alloc c = true → c = 0 := by
    intro c hc
    by_contra hne
    simp [boot,update_of_ne hne] at hc
  constructor
  case entry =>
    intro i n hl hi
    obtain ⟨rfl,rfl,rfl⟩ := hslot i n hl hi
    exact ⟨0,rfl,rfl,Nat.zero_lt_succ 1,fun _ => ⟨rfl,rfl⟩,fun _ => rfl,fun _ => rfl,rfl,
      (fun _ h => by cases h),(fun _ h => by cases h),
      ⟨(fun h => by cases h),(fun h => by cases h)⟩,fun hx => absurd rfl hx⟩
  case vacant =>
    intro i
    by_cases hm : i = minpid
    · simp [boot,hm]
    · simp [boot,update_of_ne hm]
  case fresh =>
    intro n hn
    rcases n with _ | _ | n
    · exact absurd hn (Nat.not_succ_le_zero 1)
    · exact absurd hn (Nat.not_succ_le_self 1)
    · exact ⟨rfl,rfl⟩
  case cells => exact fun _ _ => Nat.zero_lt_succ _
  case inj => exact fun c d hc hd _ => (hcell c hc).trans (hcell d hd).symm
  case parents =>
    intro n hn
    rcases n with _ | _ | n
    · exact ⟨Nat.lt_succ_self 1,rfl⟩
    · exact ⟨Nat.lt_succ_self 1,rfl⟩
    · exact absurd hn (Nat.not_lt.mpr (Nat.le_add_left 2 n))
  case threads =>
    intro u
    by_cases hu : u = 0
    · rw [hu]
      exact ⟨fun _ => rfl,fun _ => rfl,fun _ => rfl,fun _ => rfl,(fun _ _ h => by cases h),
        (fun _ _ h => by cases h),(fun _ h => by cases h),trivial,
        (fun _ _ h => by cases h),fun n hn => absurd hn (hown n 0).1,fun n hn => absurd hn (hown n 0).2⟩
    · exact Local.of_not_live (hlive u hu) (fun n => (hown n u).1) (fun n => (hown n u).2)

theorem agree_along {mem : Nat → Process} {acts : List Act} {s : State}
    (hok : Run.Along step Orderly (boot mem) acts)
    (hrun : Run.exec step (boot mem) acts = some s) : Agree s :=
  Run.invariant (fun _ _ _ h hok hstep => h.step hok hstep) (agree_boot mem) hok hrun

theorem waitpid_returns_exitcode_along {mem : Nat → Process} {acts : List Act} {s : State}
    (hok : Run.Along step Orderly (boot mem) acts)
    (hrun : Run.exec step (boot mem) acts = some s) {t : Nat} {w : Wait} {v : Option Int}
    (hpc : (s.threads t).pc = .waitDone w v) (hparent : w.parent = true) :
    ∃ x, v = some x ∧ (s.life w.proc).exitArg = some x := by
  have hneeds := ((agree_along hok hrun).threads t).needs
  rw [hpc] at hneeds
  exact (hneeds hparent).2

def orderly (s : State) : Act → Bool
  | .thread t _ =>
    match (s.threads t).pc with
    | .stopRead w => decide ((s.life w.proc).phase ≠ .stopping)
    | .reapTest _ => false
    | .cpChild .table f _ => decide (s.table (s.mem f.temp).pid = none)
    | _ => true
  | .scribble _ _ => true
  | .overrun _ _ => false

theorem orderly_of {s : State} {act : Act} (h : orderly s act = true) : Orderly s act := by
  cases act with
  | thread t choice =>
    simp only [orderly] at h
    simp only [Orderly]
    split <;> rename_i hpc <;> simp only [hpc] at h
    · exact fun _ => of_decide_eq_true h
    · cases h
    · exact of_decide_eq_true h
    · trivial
  | scribble => trivial
  | overrun => cases h

def exitThenWait (stores : Nat) : List Act :=
  forkWhole 0 1 1 2 ++ [.thread 1 (.exit 7)] ++ runs 1 stores ++ [.thread 0 (.waitpid 102 0 false)] ++
    runs 0 10

theorem waitpid_returns_exitcode_seven :
    ∃ s w v, Run.exec step (boot fun _ => bootProcess 0) (exitThenWait 2) = some s ∧
      (s.threads 0).pc = .waitDone w v ∧ w.parent = true ∧
      ∃ x, v = some x ∧ (s.life w.proc).exitArg = some x := by
  have hview : ((Run.exec step (boot fun _ => bootProcess 0) (exitThenWait 2)).map
      fun s => (s.threads 0).pc) = some (.waitDone ⟨1,2,true⟩ (some 7)) := by
    decide +kernel
  obtain ⟨s,hs,hpc⟩ := Option.map_eq_some_iff.mp hview
  have hchk : Run.check step orderly (boot fun _ => bootProcess 0) (exitThenWait 2) = true := by
    decide +kernel
  have hok := Run.along_mono (fun _ _ => orderly_of) (Run.along_of_check hchk)
  exact ⟨s,_,_,hs,hpc,rfl,waitpid_returns_exitcode_along hok hs hpc rfl⟩

theorem waitpid_reads_between_stores :
    ∃ s w, Run.exec step (boot fun _ => bootProcess 0) (exitThenWait 1) = some s ∧
      (s.threads 0).pc = .waitDone w (some 0) ∧ w.parent = true ∧
      (s.life w.proc).exitArg = some 7 := by
  have hview : ((Run.exec step (boot fun _ => bootProcess 0) (exitThenWait 1)).map
      fun s => ((s.threads 0).pc, (s.life 2).exitArg)) =
      some (.waitDone ⟨1,2,true⟩ (some 0), some 7) := by
    decide +kernel
  obtain ⟨s,hs,heq⟩ := Option.map_eq_some_iff.mp hview
  obtain ⟨hpc,harg⟩ := Prod.mk.inj heq
  exact ⟨s,_,hs,hpc,rfl,harg⟩

end OS161.Proc
