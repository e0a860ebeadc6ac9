import OS161.Thread.Reserve

namespace OS161.Thread

namespace Sys
variable {s s' : Sys} {op : Op} {ts : List Nat}

def joining (s : Sys) : Op → Option (List Nat)
  | .stash =>
    match s.away with
    | some (cur, .ready) => some [cur]
    | _ => none
  | .wakeup addr => some (s.woken addr false)
  | .wakeupSingle addr => some (s.woken addr true)
  | _ => none

def Crowded (s : Sys) (ts : List Nat) : Prop :=
  s.numthreads = s.runqueue.size ∧
    s.runqueue.toList.length + ts.length = s.numthreads

instance : Decidable (s.Crowded ts) := inferInstanceAs (Decidable (_ ∧ _))

theorem joining_stash (h : s.joining .stash = some ts) :
    ∃ cur, s.away = some (cur, .ready) ∧ ts = [cur] := by
  simp only [joining] at h
  split at h
  · rename_i cur hcur
    exact ⟨cur,hcur,(Option.some.inj h).symm⟩
  · cases h

theorem step_wakeup {addr : Nat} {single : Bool} (hop : op = .wakeup addr ∧ single = false ∨
    op = .wakeupSingle addr ∧ single = true) (hs : s.step (op, .plenty) = some s') (mem : Mem) :
    s.step (op, mem) = (s.wakeup mem.queue addr single).toOption := by
  unfold step at hs ⊢
  cases ha : s.away with
  | some p => rcases hop with ⟨rfl,-⟩ | ⟨rfl,-⟩ <;> simp [ha] at hs
  | none => rcases hop with ⟨rfl,rfl⟩ | ⟨rfl,rfl⟩ <;> cases hc : s.curthread <;> rfl

theorem wakeup_joins {addr : Nat} {single : Bool} (h : s.Stored)
    (hop : op = .wakeup addr ∧ single = false ∨ op = .wakeupSingle addr ∧ single = true)
    (hs : s.step (op, .plenty) = some s') (mem : Mem) : s.step (op, mem) =
      if mem.queue = true ∨
        s.runqueue.toList.length + (s.woken addr single).length < s.runqueue.size
      then some s' else none := by
  have hstep := step_wakeup hop hs
  rw [hstep] at hs
  have hw := ok_of_toOption hs
  obtain ⟨q,-,-,hspec⟩ := wakeup_spec (of_decide_eq_true (assert_bind_ok hw).1) h.kept.queue addr
    single
  rw [hspec,if_pos (.inl rfl)] at hw
  cases hw
  rw [hstep,hspec]
  split <;> rfl

theorem ready_joins (h : s.Stored) {cur : Nat} (ha : s.away = some (cur, .ready))
    (hs : s.step (.stash, .plenty) = some s') (mem : Mem) : s.step (.stash, mem) =
      if mem.queue = true ∨ s.runqueue.toList.length + 1 < s.runqueue.size
      then some s' else none := by
  have hstep : ∀ mem, s.step (.stash, mem) = (s.stash mem cur .ready).toOption := by
    intro mem
    simp only [step,ha,if_true]
    rfl
  obtain ⟨q,-,-,-,hadd⟩ := Queue.addtail_spec h.kept.queue (Queue.exact_id _) cur
  rw [hstep] at hs
  obtain ⟨r,hr,-⟩ := bind_ok (ok_of_toOption hs)
  have hspl := (assert_bind_ok hr).1
  have hstash : ∀ mem : Mem, s.stash mem cur .ready = assertDone
      ((if mem.queue = true ∨ s.runqueue.toList.length + 1 < s.runqueue.size then some q
        else none).map fun q =>
          { s with away := none, runqueue := q, entered := s.entered ++ [cur] }) := by
    intro mem
    unfold stash makeRunnable
    rw [assert_of hspl,ok_bind,hadd]
    rfl
  rw [hstash,if_pos (.inl rfl)] at hs
  cases hs
  rw [hstep,hstash]
  split <;> rfl

theorem step_joins (h : s.Stored) (hts : s.joining op = some ts)
    (hs : s.step (op, .plenty) = some s') (mem : Mem) : s.step (op, mem) =
      if mem.queue = true ∨ s.runqueue.toList.length + ts.length < s.runqueue.size
      then some s' else none := by
  cases op with
  | wakeup addr =>
    cases hts
    exact wakeup_joins h (.inl ⟨rfl,rfl⟩) hs mem
  | wakeupSingle addr =>
    cases hts
    exact wakeup_joins h (.inr ⟨rfl,rfl⟩) hs mem
  | stash =>
    obtain ⟨cur,ha,rfl⟩ := joining_stash hts
    exact ready_joins h ha hs mem
  | _ => cases hts

theorem joining_le (h : s.Stored) (hts : s.joining op = some ts) :
    s.runqueue.toList.length + ts.length ≤ s.numthreads := by
  have hcount := h.kept.count
  simp only [Sys.places,List.length_append] at hcount
  have hwoken : ∀ addr single, (s.woken addr single).length ≤ s.sleepers.length :=
    fun _ single => (length_stays_le _ single s.sleepers).1
  cases op with
  | wakeup addr =>
    cases hts
    have := hwoken addr false
    omega
  | wakeupSingle addr =>
    cases hts
    have := hwoken addr true
    omega
  | stash =>
    obtain ⟨cur,ha,rfl⟩ := joining_stash hts
    have hleaving : s.leaving.length = 1 := by simp [Sys.leaving,ha]
    rw [List.length_singleton]
    omega
  | _ => cases hts

end Sys

theorem make_runnable_grows_iff {me : Nat} {ls : List (Op × Mem)} {s : Sys}
    (hrun : Run.exec Sys.step (Sys.boot me) ls = some s) :
    (∀ (s' : Sys) (op : Op) (ts : List Nat), s.joining op = some ts →
      s.step (op, .plenty) = some s' →
      (s.step (op, .starved) = some s' ↔ ¬ s.Crowded ts)) ∧
    (∀ (q q' : Queue) (l more : List Nat) (mem : Bool), q.Holds l →
      q.preallocate id mem (l.length + more.length) = .ok (some q') →
      ((∃ q'', q'.addtails false more = .ok (some q'')) ↔
        q'.size ≠ l.length + more.length)) := by
  refine ⟨fun s' op ts hts hs => ?_,fun q q' l more mem hq hp => ?_⟩
  · have h := Sys.Stored.along hrun
    have hle := Sys.joining_le h hts
    have hsize := h.queue
    rw [Sys.step_joins h hts hs .starved,Option.ite_none_right_eq_some,Sys.Crowded]
    simp only [Mem.starved,Bool.false_eq_true,false_or,and_true]
    omega
  · obtain ⟨q₁,hq₁,hn,-,hpre⟩ := Queue.preallocate_spec hq (Queue.exact_id _)
    obtain ⟨q₂,-,-,hadd⟩ := Queue.addtails_spec more hq₁
    rw [hpre] at hp
    obtain ⟨-,heq⟩ := Option.ite_none_right_eq_some.mp (Except.ok.inj hp)
    obtain rfl := Option.some.inj heq
    rw [hadd]
    simp only [Bool.false_eq_true,false_or,Except.ok.injEq,Option.ite_none_right_eq_some,
      exists_and_left]
    exact ⟨fun hx => Nat.ne_of_gt hx.1,fun hne => ⟨by omega,q₂,rfl⟩⟩

def forkMany (n : Nat) : List (Op × Mem) :=
  (List.range n).map fun i => (.fork (i + 1), .plenty)

theorem make_runnable_grows_two_threads : ∃ s s' : Sys,
    Run.exec Sys.step (Sys.boot 0) (forkMany 1 ++ [(.yield, .plenty)]) = some s ∧
    s.step (.stash, .starved) = some s' ∧ s'.runqueue.toList = [1, 0] := by
  have hview : (Run.exec Sys.step (Sys.boot 0) (forkMany 1 ++ [(.yield, .plenty)])).map
      (fun s => (s.joining .stash, (s.step (.stash, .plenty)).map (·.runqueue.toList),
        decide (s.Crowded [0]))) = some (some [0], some [1,0], false) := by
    decide +kernel
  obtain ⟨s,hrun,hv⟩ := Option.map_eq_some_iff.mp hview
  simp only [Prod.mk.injEq,decide_eq_false_iff_not,Option.map_eq_some_iff] at hv
  obtain ⟨hjoin,⟨s',hs,hq⟩,hcrowded⟩ := hv
  exact ⟨s,s',hrun,
    ((make_runnable_grows_iff hrun).1 s' .stash [0] hjoin hs).mpr hcrowded,hq⟩

def panics {α : Type} : Kern α → Option String
  | .error (.panic msg) => some msg
  | _ => none

theorem yield_of_32_threads_grows : ∃ s : Sys,
    Run.exec Sys.step (Sys.boot 0) (forkMany 31 ++ [(.yield, .plenty)]) = some s ∧
    s.numthreads = 32 ∧ s.runqueue.size = 32 ∧ s.away = some (0, .ready) ∧
    (s.stash .plenty 0 .ready).toOption.isSome ∧
    panics (s.stash .starved 0 .ready) = some "result==0" := by
  have hview : (Run.exec Sys.step (Sys.boot 0) (forkMany 31 ++ [(.yield, .plenty)])).map
      (fun s => ((s.numthreads, s.runqueue.size, s.away),
        (s.stash .plenty 0 .ready).toOption.isSome, panics (s.stash .starved 0 .ready))) =
      some ((32, 32, some (0, .ready)), true, some "result==0") := by
    decide +kernel
  obtain ⟨s,hrun,hv⟩ := Option.map_eq_some_iff.mp hview
  simp only [Prod.mk.injEq] at hv
  exact ⟨s,hrun,hv.1.1,hv.1.2.1,hv.1.2.2,hv.2.1,hv.2.2⟩

namespace Sys
variable {s s' : Sys} {op : Op} {mem : Mem}

def Roomy (s : Sys) (l : Op × Mem) : Prop :=
  (∀ newguy, l.1 = .fork newguy →
    s.dead = [] ∨ s.dead.length + s.numthreads < s.zombiesMax) ∧
  (l.1 = .switch → s.resumes → s.zombiesMax ≤ 16)

def SleepersReserved (s : Sys) : Prop := s.numthreads ≤ s.sleepersMax

def ZombiesReserved (s : Sys) : Prop :=
  s.dead.length + s.numthreads ≤ s.zombiesMax

theorem SleepersReserved.step (h : s.Stored) (hr : s.SleepersReserved)
    (hs : s.step (op, mem) = some s') : s'.SleepersReserved := by
  unfold SleepersReserved at hr ⊢
  cases (h.advance hs).shift with
  | keep fewer _ _ sleepers _ => omega
  | fork _ _ _ _ sleepers _ _ => exact sleepers
  | resume _ _ count _ sleepers _ _ => omega

theorem ZombiesReserved.of_fork (h : s.Stored) (hroomy : s.Roomy (op, mem))
    (hs : s.step (op, mem) = some s') (hmore : s.numthreads < s'.numthreads) :
    s'.ZombiesReserved := by
  unfold ZombiesReserved
  cases (h.advance hs).shift with
  | keep fewer _ _ _ _ => omega
  | resume _ _ count _ _ _ _ => omega
  | fork newguy hop count _ _ zombies dead =>
    rw [dead]
    rcases hroomy.1 newguy hop with hnil | hroom
    · rw [hnil,List.length_nil]
      omega
    · omega

theorem ZombiesReserved.step (h : s.Stored) (hr : s.ZombiesReserved)
    (hroomy : s.Roomy (op, mem)) (hs : s.step (op, mem) = some s') : s'.ZombiesReserved := by
  by_cases hmore : s.numthreads < s'.numthreads
  · exact .of_fork h hroomy hs hmore
  · unfold ZombiesReserved at hr ⊢
    cases (h.advance hs).shift with
    | keep _ sum _ _ zombies => omega
    | fork _ _ count _ _ _ _ => omega
    | resume hop head count _ _ zombies dead =>
      have hsmall := hroomy.2 hop head
      rw [dead,List.length_nil,zombies,if_neg (by omega)]
      omega

theorem sleep_stashed {cur : Nat} (h : s.Stored) (hr : s.SleepersReserved)
    (ha : s.away = some (cur, .sleep)) : ∃ s', s'.sleepersMax = s.sleepersMax ∧
      ∀ mem, s.stash mem cur .sleep = .ok s' := by
  have hcount := h.kept.count
  simp only [Sys.places,Sys.leaving,ha,List.length_append,List.length_singleton] at hcount
  have hroom : s.sleepersArray.guys.length < s.sleepersArray.max := by
    show s.sleepers.length < s.sleepersMax
    unfold SleepersReserved at hr
    omega
  refine ⟨{ s with away := none, sleepers := s.sleepers ++ [cur] },rfl,fun mem => ?_⟩
  unfold stash
  rw [Arr.add_room hroom,ok_bind]
  rfl

theorem zombie_stashed {cur : Nat} (hr : s.ZombiesReserved)
    (ha : s.away = some (cur, .zomb)) : ∃ s', s'.zombiesMax = s.zombiesMax ∧
      ∀ mem, s.stash mem cur .zomb = .ok s' := by
  have hroom : s.zombiesArray.guys.length < s.zombiesArray.max := by
    show s.zombies.length < s.zombiesMax
    simp only [ZombiesReserved,Sys.dead,Sys.dying,ha,List.length_append,
      List.length_singleton] at hr
    omega
  refine ⟨{ s with away := none, zombies := s.zombies ++ [cur] },rfl,fun mem => ?_⟩
  unfold stash
  rw [Arr.add_room hroom,ok_bind]
  rfl

end Sys

theorem sleep_and_exit_never_allocate {me newguy : Nat} {mem : Mem} {pre post : List (Op × Mem)}
    {s₀ s₁ s : Sys} (hpre : Run.exec Sys.step (Sys.boot me) pre = some s₀)
    (hfork : s₀.step (.fork newguy, mem) = some s₁)
    (hnew : s₁.numthreads = s₀.numthreads + 1)
    (hpost : Run.exec Sys.step s₁ post = some s) :
    (∀ cur, s.away = some (cur, .sleep) → ∃ s', s'.sleepersMax = s.sleepersMax ∧
      ∀ mem, s.stash mem cur .sleep = .ok s') ∧
    (Run.Along Sys.step Sys.Roomy s₀ ((.fork newguy, mem) :: post) →
      ∀ cur, s.away = some (cur, .zomb) → ∃ s', s'.zombiesMax = s.zombiesMax ∧
        ∀ mem, s.stash mem cur .zomb = .ok s') := by
  have h₀ := Sys.Stored.along hpre
  have h₁ := h₀.step hfork
  constructor
  · intro cur ha
    have hfirst : s₁.SleepersReserved := by
      cases (h₀.advance hfork).shift with
      | keep fewer _ _ _ _ => omega
      | resume hop _ _ _ _ _ _ => cases hop
      | fork _ _ _ _ sleepers _ _ => exact sleepers
    have hr : s.Stored ∧ s.SleepersReserved :=
      Run.invariant (P := fun _ _ => True) (I := fun s => s.Stored ∧ s.SleepersReserved)
        (fun _ _ _ hi _ hs => ⟨hi.1.step hs,Sys.SleepersReserved.step hi.1 hi.2 hs⟩)
        ⟨h₁,hfirst⟩ (Run.along_of_forall (P := fun _ => True) fun _ _ => trivial) hpost
    exact Sys.sleep_stashed hr.1 hr.2 ha
  · intro halong cur ha
    have hfirst := Sys.ZombiesReserved.of_fork h₀ halong.1 hfork (by omega)
    have hr : s.Stored ∧ s.ZombiesReserved :=
      Run.invariant (I := fun s => s.Stored ∧ s.ZombiesReserved)
        (fun _ _ _ hi hp hs => ⟨hi.1.step hs,Sys.ZombiesReserved.step hi.1 hi.2 hp hs⟩)
        ⟨h₁,hfirst⟩ (halong.2 s₁ hfork) hpost
    exact Sys.zombie_stashed hr.2 ha

def roomyCheck (s : Sys) (l : Op × Mem) : Bool :=
  match l.1 with
  | .fork _ => s.dead == []
  | .switch => s.zombiesMax ≤ 16
  | _ => true

theorem roomy_of_check {s : Sys} {l : Op × Mem} (h : roomyCheck s l = true) : s.Roomy l := by
  obtain ⟨op,mem⟩ := l
  refine ⟨fun newguy hop => ?_,fun hop _ => ?_⟩
  · obtain rfl : op = .fork newguy := hop
    exact .inl (by simpa [roomyCheck] using h)
  · obtain rfl : op = .switch := hop
    simpa [roomyCheck] using h

def exitAfterYields : List (Op × Mem) :=
  [(.yield, .starved), (.stash, .starved), (.switch, .starved), (.yield, .starved),
    (.stash, .starved), (.switch, .starved), (.exit, .starved)]

theorem sleep_and_exit_after_yields : ∃ s₁ s s' : Sys,
    (Sys.boot 0).step (.fork 1, .plenty) = some s₁ ∧
    Run.exec Sys.step s₁ exitAfterYields = some s ∧ s.away = some (0, .zomb) ∧
    ∀ mem, s.stash mem 0 .zomb = .ok s' := by
  have hview : ((Sys.boot 0).step (.fork 1, .plenty)).map (fun s₁ => (s₁.numthreads,
      Run.check Sys.step roomyCheck (Sys.boot 0) ((.fork 1, .plenty) :: exitAfterYields),
      (Run.exec Sys.step s₁ exitAfterYields).map (·.away))) =
      some (2, true, some (some (0, .zomb))) := by
    decide +kernel
  obtain ⟨s₁,hfork,hv⟩ := Option.map_eq_some_iff.mp hview
  simp only [Prod.mk.injEq,Option.map_eq_some_iff] at hv
  obtain ⟨hnew,hcheck,s,hpost,ha⟩ := hv
  obtain ⟨s',_,hst'⟩ := (sleep_and_exit_never_allocate (Run.exec_nil (Sys.boot 0)) hfork hnew
    hpost).2 (Run.along_mono (fun _ _ => roomy_of_check) (Run.along_of_check hcheck)) 0 ha
  exact ⟨s₁,s,s',hfork,hpost,ha,hst'⟩

def yieldRound : List (Op × Mem) :=
  forkMany 14 ++
  (List.replicate 15 [(.yield, .plenty), (.stash, .plenty), (.switch, .plenty)]).flatten ++
  [(.exit, .plenty)]

def relay : List (Op × Mem) :=
  [(.fork 1, .plenty), (.splx 15, .plenty), (.sleep 7, .plenty), (.stash, .plenty),
    (.switch, .plenty)] ++
  ((List.range 6).map fun i => [(.fork (i + 2), .plenty), (.exit, .plenty), (.stash, .plenty),
    (.switch, .plenty)]).flatten ++ [(.exit, .plenty)]

theorem exit_allocates : (∃ s : Sys, Run.exec Sys.step (Sys.boot 0) yieldRound = some s ∧
      s.away = some (0, .zomb) ∧ s.zombiesMax = 0 ∧
      panics (s.stash .starved 0 .zomb) = some "result==0") ∧
    (∃ s : Sys, Run.exec Sys.step (Sys.boot 0) relay = some s ∧
      s.away = some (7, .zomb) ∧ s.zombies = [1, 2, 3, 4, 5, 6] ∧
      panics (s.stash .starved 7 .zomb) = some "result==0") := by
  have hround : (Run.exec Sys.step (Sys.boot 0) yieldRound).map (fun s =>
      (s.away, s.zombiesMax, panics (s.stash .starved 0 .zomb))) =
      some (some (0, .zomb), 0, some "result==0") := by
    decide +kernel
  have hrelay : (Run.exec Sys.step (Sys.boot 0) relay).map (fun s =>
      (s.away, s.zombies, panics (s.stash .starved 7 .zomb))) =
      some (some (7, .zomb), [1,2,3,4,5,6], some "result==0") := by
    decide +kernel
  obtain ⟨s,hrun,hv⟩ := Option.map_eq_some_iff.mp hround
  obtain ⟨s₂,hrun₂,hv₂⟩ := Option.map_eq_some_iff.mp hrelay
  simp only [Prod.mk.injEq] at hv hv₂
  exact ⟨⟨s,hrun,hv⟩,⟨s₂,hrun₂,hv₂⟩⟩

end OS161.Thread
