import Mathlib.Data.List.Nodup
import OS161.Lib.Run
import OS161.Thread.Wakeup

namespace OS161.Thread

open Function

structure Conserved (s : Sys) : Prop where
  queue : s.runqueue.Holds s.runqueue.toList
  live : ∀ t, s.life t = .live ↔ t ∈ s.places
  once : s.places.Nodup
  exited : ∀ t, s.life t = .exited ↔ t ∈ s.dead
  deadOnce : s.dead.Nodup
  count : s.numthreads = s.places.length
  order : s.entered = s.left ++ s.runqueue.toList

namespace Sys
variable {s s' : Sys} {rq : List Nat} {cur n : Nat} {mem : Mem}

theorem stash_ready (hq : s.runqueue.Holds rq) (h : s.stash mem cur .ready = .ok s') :
    ∃ q : Queue, q.Holds (rq ++ [cur]) ∧ s.runqueue.size ≤ q.size ∧
      s' = { s with away := none, runqueue := q, entered := s.entered ++ [cur] } := by
  obtain ⟨r,hr,hdone⟩ := bind_ok h
  rw [assertDone_ok hdone] at hr
  exact makeRunnable_some (s := { s with away := none }) hq hr

theorem add_done {a : Arr} {mem : Bool} {f : Arr → Sys} (h : (do
    let b ← assertDone (← a.add mem cur)
    pure (f b) : Kern Sys) = .ok s') :
    ∃ m, (a.guys ++ [cur]).length ≤ m ∧ a.max ≤ m ∧ s' = f ⟨a.guys ++ [cur], m⟩ := by
  obtain ⟨r,hr,h⟩ := bind_ok h
  obtain ⟨⟨guys,m⟩,hdone,h⟩ := bind_ok h
  rw [assertDone_ok hdone] at hr
  obtain ⟨hguys,hlen,hmax⟩ := Arr.add_some hr
  cases hguys
  cases h
  exact ⟨m,hlen,hmax,rfl⟩

theorem stash_sleep (h : s.stash mem cur .sleep = .ok s') : ∃ m : Nat,
    (s.sleepers ++ [cur]).length ≤ m ∧ s.sleepersMax ≤ m ∧
      s' = { s with away := none, sleepers := s.sleepers ++ [cur], sleepersMax := m } :=
  add_done h

theorem stash_zomb (h : s.stash mem cur .zomb = .ok s') : ∃ m : Nat,
    (s.zombies ++ [cur]).length ≤ m ∧ s.zombiesMax ≤ m ∧
      s' = { s with away := none, zombies := s.zombies ++ [cur], zombiesMax := m } :=
  add_done h

def forked (s : Sys) (t : Nat) (q : Queue) (a b : Nat) : Sys :=
  { s with
    runqueue := q
    sleepersMax := a
    zombiesMax := b
    entered := s.entered ++ [t]
    numthreads := s.numthreads + 1
    sleepaddr := Function.update s.sleepaddr t none
    started := Function.update s.started t false
    life := Function.update s.life t .live }

theorem threadFork_cases (hq : s.runqueue.Holds rq) {r : Option Errno}
    (hf : s.threadFork mem n = .ok (r, s')) : ∃ (q : Queue) (a b : Nat),
      s.runqueue.size ≤ q.size ∧ s.sleepersMax ≤ a ∧ s.zombiesMax ≤ b ∧
      ((r = some .enomem ∧ q.Holds rq ∧
          s' = { s with runqueue := q, sleepersMax := a, zombiesMax := b }) ∨
        (r = none ∧ q.Holds (rq ++ [n]) ∧ s.numthreads + 1 ≤ q.size ∧ s.numthreads + 1 ≤ a ∧
          s.numthreads + 1 ≤ b ∧ s' = s.forked n q a b)) := by
  unfold threadFork at hf
  obtain ⟨r₁,hr₁,hf⟩ := bind_ok hf
  cases r₁ with
  | none =>
    cases hf
    exact ⟨_,_,_,le_refl _,le_refl _,le_refl _,.inl ⟨rfl,hq,rfl⟩⟩
  | some a =>
    obtain ⟨ha,hna,hma⟩ := Arr.preallocate_some hr₁
    obtain ⟨_,a⟩ := a
    cases ha
    obtain ⟨r₂,hr₂,hf⟩ := bind_ok hf
    cases r₂ with
    | none =>
      cases hf
      exact ⟨_,a,_,le_refl _,hma,le_refl _,.inl ⟨rfl,hq,rfl⟩⟩
    | some b =>
      obtain ⟨hb,hnb,hmb⟩ := Arr.preallocate_some hr₂
      obtain ⟨_,b⟩ := b
      cases hb
      obtain ⟨r₃,hr₃,hf⟩ := bind_ok hf
      cases r₃ with
      | none =>
        cases hf
        exact ⟨_,a,b,le_refl _,hma,hmb,.inl ⟨rfl,hq,rfl⟩⟩
      | some s₁ =>
        obtain ⟨q₁,hq₁,hnq₁,hsize₁,rfl⟩ := schedulerPreallocate_some (s := { s with
          curspl := splHigh, sleepersMax := a, zombiesMax := b }) hq hr₃
        obtain ⟨r₄,hr₄,hf⟩ := bind_ok hf
        cases r₄ with
        | none =>
          cases hf
          exact ⟨q₁,a,b,hsize₁,hma,hmb,.inl ⟨rfl,hq₁,rfl⟩⟩
        | some s₂ =>
          obtain ⟨q₂,hq₂,hsize₂,rfl⟩ := makeRunnable_some hq₁ hr₄
          cases hf
          exact ⟨q₂,a,b,le_trans hsize₁ hsize₂,hma,hmb,
            .inr ⟨rfl,hq₂,le_trans hnq₁ hsize₂,hna,hnb,rfl⟩⟩

theorem step_cases {op : Op} (hs : s.step (op, mem) = some s') :
    (∃ cur next, s.away = some (cur, next) ∧ op = .stash ∧ s.stash mem cur next = .ok s') ∨
      s.away = none ∧ ((∃ cur, s.curthread = some cur ∧ s.run mem cur op = some (.ok s')) ∨
        s.curthread = none ∧ s.idle mem op = some (.ok s')) := by
  obtain ⟨k,hk,hok⟩ := Option.bind_eq_some_iff.mp hs
  obtain rfl := ok_of_toOption hok
  cases ha : s.away with
  | some p =>
    rw [ha] at hk
    obtain ⟨hop,hk⟩ := Option.ite_none_right_eq_some.mp hk
    exact .inl ⟨p.1,p.2,rfl,hop,Option.some.inj hk⟩
  | none =>
    cases hc : s.curthread with
    | some cur =>
      rw [ha,hc] at hk
      exact .inr ⟨rfl,.inl ⟨cur,rfl,hk⟩⟩
    | none =>
      rw [ha,hc] at hk
      exact .inr ⟨rfl,.inr ⟨rfl,hk⟩⟩

end Sys

namespace Conserved
variable {s s' : Sys} {rq : List Nat} {t cur : Nat} {mem : Mem}

theorem places_eq (hq : s.runqueue.Holds rq) :
    s.places = s.curthread.toList ++ s.leaving ++ rq ++ s.sleepers := by
  rw [Sys.places,hq.toList_eq]

theorem of_places (hq : s.runqueue.Holds rq) (ho : s.entered = s.left ++ rq)
    (hlive : ∀ t, s.life t = .live ↔ t ∈ s.places) (honce : s.places.Nodup)
    (hexited : ∀ t, s.life t = .exited ↔ t ∈ s.dead) (hdead : s.dead.Nodup)
    (hcount : s.numthreads = s.places.length) : Conserved s where
  queue := by rwa [hq.toList_eq]
  live := hlive
  once := honce
  exited := hexited
  deadOnce := hdead
  count := hcount
  order := by rwa [hq.toList_eq]

section
variable (h : Conserved s)
include h

theorem move (hq : s'.runqueue.Holds rq) (ho : s'.entered = s'.left ++ rq)
    (hp : (s'.curthread.toList ++ s'.leaving ++ rq ++ s'.sleepers).Perm s.places)
    (hd : s'.dead = s.dead) (hl : s'.life = s.life) (hn : s'.numthreads = s.numthreads) :
    Conserved s' := by
  rw [← places_eq hq] at hp
  refine of_places hq ho (fun t => ?_) (hp.nodup_iff.mpr h.once) (fun t => ?_) ?_ ?_
  · rw [hl,h.live,hp.mem_iff]
  · rw [hl,hd,h.exited]
  · rw [hd]
    exact h.deadOnce
  · rw [hn,h.count,hp.length_eq]

theorem splx (n : Nat) : Conserved (s.splx n) :=
  h.move h.queue h.order (List.Perm.refl _) rfl rfl rfl

theorem setAddr (f : Nat → Option Nat) : Conserved { s with sleepaddr := f } :=
  h.move h.queue h.order (List.Perm.refl _) rfl rfl rfl

theorem requeue {sleepers runnable : List Nat} {q : Queue}
    (hq : q.Holds (s.runqueue.toList ++ runnable)) (hp : (runnable ++ sleepers).Perm s.sleepers) :
    Conserved (s.requeue sleepers runnable q) := by
  refine h.move hq ?_ ?_ rfl rfl rfl
  · show s.entered ++ runnable = s.left ++ (s.runqueue.toList ++ runnable)
    rw [h.order,List.append_assoc]
  · show (s.curthread.toList ++ s.leaving ++ (s.runqueue.toList ++ runnable) ++ sleepers).Perm
      s.places
    rw [Sys.places,List.append_assoc,List.append_assoc _ s.runqueue.toList s.sleepers]
    refine List.Perm.append_left _ ?_
    rw [List.append_assoc]
    exact List.Perm.append_left _ hp

theorem wakeup {addr : Nat} {single mem : Bool} (heq : s.wakeup mem addr single = .ok s') :
    Conserved s' := by
  obtain ⟨q,hq,-,rfl⟩ := Sys.wakeup_ok h.queue heq
  exact h.requeue hq wakes_append_stays_perm

theorem switchFrom_none {n : NextState} (hc : s.curthread = none) (heq : s.switchFrom n = .ok s') :
    Conserved s' := by
  unfold Sys.switchFrom at heq
  rw [hc] at heq
  cases (assert_bind_ok heq).2
  exact h

end

theorem switchFrom_some {n : NextState} (heq : s.switchFrom n = .ok s')
    (hc : s.curthread = some cur) :
    s' = { s with curthread := none, away := some (cur, n) } := by
  unfold Sys.switchFrom at heq
  rw [hc] at heq
  cases (assert_bind_ok heq).2
  rfl

theorem switchFrom (h : Conserved s) {n : NextState} (hc : s.curthread = some cur)
    (ha : s.away = none) (hn : n ≠ .zomb) (heq : s.switchFrom n = .ok s') : Conserved s' := by
  obtain rfl := switchFrom_some heq hc
  refine h.move h.queue h.order ?_ ?_ rfl rfl
  · cases n <;> first | contradiction | simp [Sys.places,Sys.leaving,hc,ha]
  · cases n <;> first | contradiction | simp [Sys.dead,Sys.dying,ha]

theorem cur_live (h : Conserved s) (hc : s.curthread = some cur) : s.life cur = .live := by
  rw [h.live,Sys.places,hc]
  simp

theorem threadExit (h : Conserved s) (hc : s.curthread = some cur) (ha : s.away = none)
    (heq : s.threadExit cur = .ok s') : Conserved s' := by
  unfold Sys.threadExit at heq
  obtain rfl := switchFrom_some (assert_bind_ok heq).2 hc
  have hplaces : s.places = cur :: (s.runqueue.toList ++ s.sleepers) := by
    simp [Sys.places,Sys.leaving,hc,ha]
  have honce := h.once
  rw [hplaces,List.nodup_cons] at honce
  have hnot : cur ∉ s.dead := by
    rw [← h.exited,h.cur_live hc]
    exact Life.noConfusion
  have hdead : s.dead = s.zombies := by simp [Sys.dead,Sys.dying,ha]
  rw [hdead] at hnot
  refine of_places h.queue h.order (fun t => ?_) honce.2 (fun t => ?_) ?_ ?_
  · show update s.life cur .exited t = .live ↔ t ∈ s.runqueue.toList ++ s.sleepers
    by_cases ht : t = cur
    · subst ht
      simpa using honce.1
    · rw [update_of_ne ht,h.live,hplaces,List.mem_cons]
      exact or_iff_right ht
  · show update s.life cur .exited t = .exited ↔ t ∈ s.zombies ++ [cur]
    by_cases ht : t = cur
    · subst ht
      simp
    · rw [update_of_ne ht,h.exited,hdead]
      simp [ht]
  · show (s.zombies ++ [cur]).Nodup
    have hz := h.deadOnce
    rw [hdead] at hz
    rw [List.nodup_append]
    refine ⟨hz,List.nodup_singleton cur,fun a ha b hb heq => hnot ?_⟩
    rwa [← List.mem_singleton.mp hb,← heq]
  · show s.numthreads - 1 = (s.runqueue.toList ++ s.sleepers).length
    rw [h.count,hplaces,List.length_cons,Nat.add_sub_cancel]

theorem stash (h : Conserved s) {n : NextState} (ha : s.away = some (cur, n))
    (heq : s.stash mem cur n = .ok s') : Conserved s' := by
  cases n with
  | ready =>
    obtain ⟨q,hq,-,rfl⟩ := Sys.stash_ready h.queue heq
    refine h.move hq ?_ ?_ ?_ rfl rfl
    · rw [h.order,List.append_assoc]
    · simp only [Sys.places,Sys.leaving,ha,List.append_assoc,List.nil_append]
      refine List.Perm.append_left _ ?_
      exact List.perm_middle
    · simp [Sys.dead,Sys.dying,ha]
  | sleep =>
    obtain ⟨m,-,-,rfl⟩ := Sys.stash_sleep heq
    refine h.move h.queue h.order ?_ ?_ rfl rfl
    · simp only [Sys.places,Sys.leaving,ha,List.append_assoc,List.nil_append]
      refine List.Perm.append_left _ ?_
      rw [← List.append_assoc]
      exact (List.perm_append_singleton _ _).trans (List.Perm.refl _)
    · simp [Sys.dead,Sys.dying,ha]
  | zomb =>
    obtain ⟨m,-,-,rfl⟩ := Sys.stash_zomb heq
    refine h.move h.queue h.order ?_ ?_ rfl rfl
    · simp [Sys.places,Sys.leaving,ha]
    · simp [Sys.dead,Sys.dying,ha]

theorem destroyAll_eq : ∀ (zs : List Nat) (s : Sys), (∀ z ∈ zs, s.curthread ≠ some z) →
    s.destroyAll zs = .ok { s with life := fun t => if t ∈ zs then .unused else s.life t } := by
  intro zs
  induction zs with
  | nil =>
    intro s _
    simp only [List.not_mem_nil,if_false]
    rfl
  | cons z zs ih =>
    intro s hz
    unfold Sys.destroyAll
    rw [assert_of (by simpa using hz z List.mem_cons_self),ok_bind,
      ih { s with life := update s.life z .unused }
        fun y hy => hz y (List.mem_cons_of_mem z hy)]
    congr 2
    funext t
    by_cases hzs : t ∈ zs
    · simp [hzs]
    · by_cases htz : t = z <;> simp [update,hzs,htz]

theorem exorcise_eq (h : Conserved s) (ha : s.away = none) (heq : s.exorcise mem = .ok s') :
    s' = { s with
      life := fun t => if t ∈ s.zombies then .unused else s.life t
      zombies := []
      zombiesMax := if 16 < s.zombiesMax then 0 else s.zombiesMax } := by
  have hdead : s.dead = s.zombies := by simp [Sys.dead,Sys.dying,ha]
  have hz : ∀ z ∈ s.zombies, s.curthread ≠ some z := by
    intro z hz hc
    rw [← hdead,← h.exited,h.cur_live hc] at hz
    cases hz
  have heq := (assert_bind_ok heq).2
  rw [destroyAll_eq s.zombies s hz,ok_bind] at heq
  obtain ⟨r,hr,heq⟩ := bind_ok heq
  have hlen := of_decide_eq_true (assert_bind_ok hr).1
  rw [Arr.setsize_zero hlen] at hr
  cases hr
  cases heq
  rfl

theorem exorcise (h : Conserved s) (ha : s.away = none) (heq : s.exorcise mem = .ok s') :
    Conserved s' := by
  have hdead : s.dead = s.zombies := by simp [Sys.dead,Sys.dying,ha]
  obtain rfl := h.exorcise_eq ha heq
  refine of_places h.queue h.order (fun t => ?_) h.once (fun t => ?_) ?_ h.count
  · show (if t ∈ s.zombies then Life.unused else s.life t) = .live ↔ t ∈ s.places
    rw [← h.live]
    split
    · rename_i hmem
      rw [← hdead,← h.exited] at hmem
      simp [hmem]
    · rfl
  · show (if t ∈ s.zombies then Life.unused else s.life t) = .exited ↔ t ∈ [] ++ s.dying
    rw [show s.dying = [] by simp [Sys.dying,ha],List.append_nil]
    split
    · simp
    · rename_i hmem
      rw [h.exited,hdead]
      simpa using hmem
  · show ([] ++ s.dying).Nodup
    simp [Sys.dying,ha]

theorem switchTo_eq (h : Conserved s) (he : s.runqueue.isEmpty = false)
    (heq : s.switchTo mem = .ok s') : ∃ (next : Nat) (rest : List Nat) (q : Queue),
      s.runqueue.toList = next :: rest ∧ q.Holds rest ∧ q.size = s.runqueue.size ∧
      (if s.started next then
        { s with curthread := some next, runqueue := q, left := s.left ++ [next] }.exorcise mem
      else pure { s with
        curthread := some next
        runqueue := q
        left := s.left ++ [next]
        started := Function.update s.started next true
        curspl := 0 }) = .ok s' := by
  obtain ⟨next,rest,hrq⟩ : ∃ next rest, s.runqueue.toList = next :: rest :=
    List.exists_cons_of_ne_nil fun hnil => by
      rw [h.queue.isEmpty_iff.mpr hnil] at he
      cases he
  have hq := h.queue
  rw [hrq] at hq
  obtain ⟨q,hrem,hq'⟩ := Queue.remhead_spec hq
  have hsize : q.size = s.runqueue.size := by
    obtain ⟨_,hrem⟩ := assert_bind_ok hrem
    cases (assert_bind_ok hrem).2
    rfl
  unfold Sys.switchTo at heq
  have heq := (assert_bind_ok heq).2
  rw [hrem,ok_bind] at heq
  exact ⟨next,rest,q,hrq,hq',hsize,heq⟩

theorem pick (h : Conserved s) (ha : s.away = none) (hc : s.curthread = none) {next : Nat}
    {rest : List Nat} {q : Queue} (hrq : s.runqueue.toList = next :: rest) (hq : q.Holds rest) :
    Conserved { s with curthread := some next, runqueue := q, left := s.left ++ [next] } := by
  refine h.move hq ?_ ?_ rfl rfl rfl
  · rw [h.order,hrq,List.append_assoc,List.singleton_append]
  · simp [Sys.places,Sys.leaving,hrq,hc,ha]

theorem switchTo (h : Conserved s) (ha : s.away = none) (hc : s.curthread = none)
    (he : s.runqueue.isEmpty = false) (heq : s.switchTo mem = .ok s') :
    Conserved s' ∧ ∃ next ∈ s.runqueue.toList, s'.curthread = some next := by
  obtain ⟨next,rest,q,hrq,hq,-,heq⟩ := h.switchTo_eq he heq
  have hnext : next ∈ s.runqueue.toList := by
    rw [hrq]
    exact List.mem_cons_self
  have hmoved := h.pick ha hc hrq hq
  split at heq
  · refine ⟨hmoved.exorcise ha heq,next,hnext,?_⟩
    rw [hmoved.exorcise_eq ha heq]
  · cases heq
    exact ⟨hmoved.move hmoved.queue hmoved.order (List.Perm.refl _) rfl rfl rfl,next,hnext,rfl⟩

theorem forked (h : Conserved s) (hnew : s.life t = .unused) {q : Queue}
    (hq : q.Holds (s.runqueue.toList ++ [t])) (a b : Nat) : Conserved (s.forked t q a b) := by
  have hplaces : (s.forked t q a b).places.Perm (t :: s.places) := by
    rw [places_eq (s := s.forked t q a b) hq]
    rw [Sys.places,← List.append_assoc _ s.runqueue.toList,List.append_assoc _ [t]]
    exact List.perm_middle
  have hnotlive : t ∉ s.places := by
    rw [← h.live,hnew]
    exact Life.noConfusion
  have hnotdead : t ∉ s.dead := by
    rw [← h.exited,hnew]
    exact Life.noConfusion
  refine of_places hq ?_ (fun u => ?_) ?_ (fun u => ?_) h.deadOnce ?_
  · show s.entered ++ [t] = s.left ++ (s.runqueue.toList ++ [t])
    rw [h.order,List.append_assoc]
  · rw [hplaces.mem_iff,List.mem_cons]
    show update s.life t .live u = .live ↔ _
    by_cases hu : u = t
    · simp [hu]
    · rw [update_of_ne hu,h.live]
      simp [hu]
  · exact hplaces.nodup_iff.mpr (List.nodup_cons.mpr ⟨hnotlive,h.once⟩)
  · show update s.life t .live u = .exited ↔ u ∈ s.dead
    by_cases hu : u = t
    · subst hu
      simpa using hnotdead
    · rw [update_of_ne hu,h.exited]
  · exact (congrArg (· + 1) h.count).trans hplaces.length_eq.symm

theorem threadFork {r : Option Errno} (h : Conserved s) (hnew : s.life t = .unused)
    (heq : s.threadFork mem t = .ok (r, s')) : Conserved s' := by
  obtain ⟨q,a,b,-,-,-,hcase⟩ := Sys.threadFork_cases h.queue heq
  rcases hcase with ⟨-,hq,rfl⟩ | ⟨-,hq,-,-,-,rfl⟩
  · exact h.move hq h.order (List.Perm.refl _) rfl rfl rfl
  · exact h.forked hnew hq a b

theorem run {op : Op} (h : Conserved s) (ha : s.away = none) (hc : s.curthread = some cur)
    (hrun : s.run mem cur op = some (.ok s')) : Conserved s' := by
  cases op with
  | splx n =>
    cases hrun
    exact h.splx n
  | fork n =>
    obtain ⟨hnew,hrun⟩ := Option.ite_none_right_eq_some.mp hrun
    obtain ⟨⟨r,_⟩,hfork,hs⟩ := bind_ok (Option.some.inj hrun)
    cases hs
    exact h.threadFork hnew hfork
  | yield => exact (h.splx splHigh).switchFrom hc ha NextState.noConfusion (Option.some.inj hrun)
  | sleep addr =>
    have heq : s.threadSleep cur addr = .ok s' := Option.some.inj hrun
    exact (h.setAddr (update s.sleepaddr cur (some addr))).switchFrom (n := .sleep) hc ha
      NextState.noConfusion heq
  | awake =>
    cases hrun
    exact h.setAddr _
  | wakeup addr | wakeupSingle addr => exact h.wakeup (Option.some.inj hrun)
  | exit => exact h.threadExit hc ha (Option.some.inj hrun)
  | stash => cases hrun
  | switch => cases hrun

theorem idle {op : Op} (h : Conserved s) (ha : s.away = none) (hc : s.curthread = none)
    (hidle : s.idle mem op = some (.ok s')) : Conserved s' := by
  cases op with
  | switch =>
    obtain ⟨he,hidle⟩ := Option.ite_none_left_eq_some.mp hidle
    exact (h.switchTo ha hc (Bool.eq_false_iff.mpr he) (Option.some.inj hidle)).1
  | wakeup addr | wakeupSingle addr => exact h.wakeup (Option.some.inj hidle)
  | yield =>
    obtain ⟨u,hu,heq⟩ := bind_ok (Option.some.inj hidle)
    cases heq
    exact ((h.splx splHigh).switchFrom_none hc hu).splx s.curspl
  | splx n => cases hidle
  | fork n => cases hidle
  | sleep addr => cases hidle
  | awake => cases hidle
  | exit => cases hidle
  | stash => cases hidle

theorem step {op : Op} (h : Conserved s) (hs : s.step (op, mem) = some s') : Conserved s' := by
  obtain ⟨cur,n,ha,-,hk⟩ | ⟨ha,⟨cur,hc,hk⟩ | ⟨hc,hk⟩⟩ := Sys.step_cases hs
  · exact h.stash ha hk
  · exact h.run ha hc hk
  · exact h.idle ha hc hk

theorem boot (me : Nat) : Conserved (Sys.boot me) := by
  have hq : (Sys.boot me).runqueue.Holds [] := Queue.create_holds (by decide)
  have hplaces : (Sys.boot me).places = [me] := by
    rw [places_eq hq]
    rfl
  refine of_places hq rfl (fun t => ?_) ?_ (fun t => ?_) List.nodup_nil ?_
  · rw [hplaces]
    show (if t = me then Life.live else .unused) = .live ↔ t ∈ [me]
    split <;> simp_all
  · rw [hplaces]
    exact List.nodup_singleton me
  · show (if t = me then Life.live else .unused) = .exited ↔ t ∈ []
    split <;> simp
  · rw [hplaces]
    rfl

end Conserved

theorem Conserved.along {me : Nat} {ops : List (Op × Mem)} {s : Sys}
    (hrun : Run.exec Sys.step (Sys.boot me) ops = some s) : Conserved s :=
  Run.invariant (P := fun _ _ => True) (fun _ _ _ h _ hs => h.step hs) (Conserved.boot me)
    (Run.along_of_forall (P := fun _ => True) fun _ _ => trivial) hrun

theorem Conserved.switch_live {s s' : Sys} {t : Nat} {mem : Mem} (h : Conserved s)
    (hs : s.step (.switch, mem) = some s') (hc : s'.curthread = some t) : s.life t = .live := by
  obtain ⟨_,_,-,hop,-⟩ | ⟨ha,⟨cur,-,hk⟩ | ⟨hcur,hk⟩⟩ := Sys.step_cases hs
  · cases hop
  · cases hk
  · obtain ⟨he,hk⟩ := Option.ite_none_left_eq_some.mp hk
    obtain ⟨_,next,hmem,hnext⟩ :=
      h.switchTo ha hcur (Bool.eq_false_iff.mpr he) (Option.some.inj hk)
    obtain rfl : next = t := Option.some.inj (hnext.symm.trans hc)
    rw [h.live]
    simp [Sys.places,hmem]

theorem threads_conserved_along {me : Nat} {ops : List (Op × Mem)} {s : Sys}
    (hrun : Run.exec Sys.step (Sys.boot me) ops = some s) :
    (∀ t, s.life t = .live →
      (s.curthread.toList ++ s.leaving ++ s.runqueue.toList ++ s.sleepers).count t = 1) ∧
    (∀ t, s.life t = .exited → (s.zombies ++ s.dying).count t = 1 ∧ t ∉ s.runqueue.toList ∧
      ∀ mem s', s.step (.switch, mem) = some s' → s'.curthread ≠ some t) ∧
    (∃ alive : List Nat, alive.Nodup ∧ (∀ t, t ∈ alive ↔ s.life t = .live) ∧
      s.numthreads = alive.length) ∧
    s.entered = s.left ++ s.runqueue.toList := by
  have h := Conserved.along hrun
  have hdead : ∀ t, s.life t = .exited → s.life t ≠ .live := by
    intro t ht hl
    rw [ht] at hl
    cases hl
  refine ⟨fun t ht => ?_,fun t ht => ⟨?_,?_,?_⟩,
    ⟨s.places,h.once,fun t => (h.live t).symm,h.count⟩,h.order⟩
  · exact List.count_eq_one_of_mem h.once ((h.live t).mp ht)
  · exact List.count_eq_one_of_mem h.deadOnce ((h.exited t).mp ht)
  · intro hmem
    refine hdead t ht ((h.live t).mpr ?_)
    simp [Sys.places,hmem]
  · intro mem s' hs hc
    exact hdead t ht (h.switch_live hs hc)

def forkAndExit : List (Op × Mem) :=
  [Op.fork 1, .fork 2, .sleep 7, .stash, .switch, .splx 15, .wakeup 7, .exit, .stash].map
    fun op => (op, .plenty)

theorem threads_conserved_fork_and_exit : ∃ s,
    Run.exec Sys.step (Sys.boot 0) forkAndExit = some s ∧
    s.zombies = [1] ∧ s.numthreads = 2 ∧ s.runqueue.toList = [2, 0] ∧
    s.entered = s.left ++ s.runqueue.toList := by
  have hview : (Run.exec Sys.step (Sys.boot 0) forkAndExit).map
      (fun s => (s.zombies, s.numthreads, s.runqueue.toList)) = some ([1], 2, [2,0]) := by
    decide +kernel
  obtain ⟨s,hs,hv⟩ := Option.map_eq_some_iff.mp hview
  simp only [Prod.mk.injEq] at hv
  exact ⟨s,hs,hv.1,hv.2.1,hv.2.2,(threads_conserved_along hs).2.2.2⟩

end OS161.Thread
