import OS161.Proc.Record
import OS161.Proc.Mutex

namespace OS161.Proc

section Move
variable {s : State} {t : Nat} (h : Agree s)

def State.resync (s : State) (lock : Lock) (sleepers : List (Nat × Chan)) (cs : Nat → Bool) :
    State :=
  { s with lock := lock, sleepers := sleepers, cs := cs }

theorem State.threads_setPc_self (s : State) (t : Nat) (pc : Pc) :
    (s.setPc t pc).threads t = { s.threads t with pc := pc } := by
  simp [State.setPc]

theorem State.pc_setPc_self (s : State) (t : Nat) (pc : Pc) : ((s.setPc t pc).threads t).pc = pc := by
  rw [threads_setPc_self]

theorem State.threads_setPc_ne (s : State) {t u : Nat} (hu : u ≠ t) (pc : Pc) :
    (s.setPc t pc).threads u = s.threads u := by
  simp [State.setPc,Function.update_of_ne hu]

theorem State.life_setPc (s : State) (t : Nat) (pc : Pc) : (s.setPc t pc).life = s.life := rfl

theorem Needs.congr {s s' : State} {t : Nat} {pc : Pc} (hmem : s'.mem = s.mem)
    (hlife : s'.life = s.life) (hz : s'.sleepers = s.sleepers)
    (hptr : (s'.threads t).arrayPtr = (s.threads t).arrayPtr) (hn : Needs s t pc) :
    Needs s' t pc := by
  cases pc <;> simp only [Needs,Exited,hmem,hlife,hz,hptr] at hn ⊢ <;> exact hn

include h

theorem Agree.resynced {lock : Lock} {z : List (Nat × Chan)} {cs : Nat → Bool} {pc : Pc}
    (hlive : (s.threads t).pc.live = true)
    (hz : ∀ u cv c, u ≠ t → (u, .cv cv) ∈ s.sleepers → s.cvs cv = some c →
      (u, .cv cv) ∈ z ∨ (s.life (s.procOf c)).phase = .exited) :
    Touches s ((s.resync lock z cs).setPc t pc) t (s.threads t).proc := by
  have hal := (h.threads t).alive hlive
  have hown := h.own_entry hlive
  constructor
  case self => exact .inr hlive
  case thread => exact fun u hu _ => State.threads_setPc_ne _ hu _
  case asleep => exact hz
  case next => exact .inl ⟨rfl,hown.old⟩
  case vacant => exact h.vacant
  case owned =>
    intro u hu heq
    rw [hal] at heq
    exact hu (Option.some.inj heq).symm
  case claimed =>
    intro u _
    change (s.life (s.threads t).proc).stage ≠ _ ∧ (s.life (s.threads t).proc).stage ≠ _
    rw [hal]
    exact ⟨nofun,nofun⟩
  case parent => exact h.parents _ hown.old
  case cells =>
    intro c hc hc'
    exact absurd (show s.alloc c = true from hc) (by rw [hc']; decide)
  case newest =>
    intro c d hc _ hc' _
    exact absurd (show s.alloc c = true from hc) (by rw [hc']; decide)
  case life => exact fun _ _ => rfl
  case slot => exact fun _ _ _ _ => Iff.rfl
  case table => exact fun _ _ _ _ _ => rfl
  case cell => exact fun c hc _ => ⟨hc,rfl,id⟩
  case procOf => exact fun _ _ => rfl
  case phase => exact id
  case exited => exact fun hx => ⟨hx,rfl⟩
  case pid => exact fun _ => rfl
  case grown => exact id

theorem Agree.move {lock : Lock} {z : List (Nat × Chan)} {cs : Nat → Bool} {pc : Pc}
    (hlive : (s.threads t).pc.live = true)
    (hz : ∀ u cv c, u ≠ t → (u, .cv cv) ∈ s.sleepers → s.cvs cv = some c →
      (u, .cv cv) ∈ z ∨ (s.life (s.procOf c)).phase = .exited)
    (hphase : ∀ ph, (s.threads t).pc.allows ph = true → pc.allows ph = true)
    (hexit : pc.exiting = none) (hfork : pc.forking = (s.threads t).pc.forking)
    (hreap : pc.reaping = (s.threads t).pc.reaping)
    (hwait : ∀ w, pc.waiting = some w → w.parent = true → Waits s t w)
    (hneeds : Needs (s.resync lock z cs) t pc) :
    Agree ((s.resync lock z cs).setPc t pc) := by
  have hT : Touches s ((s.resync lock z cs).setPc t pc) t (s.threads t).proc := h.resynced hlive hz
  have hl := h.threads t
  have hthr : ((s.resync lock z cs).setPc t pc).threads t = { s.threads t with pc := pc } :=
    State.threads_setPc_self _ _ _
  refine h.touch hT (fun i hh hi => ?_) ?_ (fun u hu hid => .inl ?_) (fun u w _ _ hw hm => ?_)
  · obtain ⟨c,hc⟩ := h.entry i _ hh hi
    exact ⟨c,hc.table,hc.pid,hc.old,hc.cell,hc.cv,hc.ppid,hc.parent,hc.stop,hc.code,
      hc.present,hc.broken⟩
  · constructor <;> rw [hthr]
    case alive => exact fun _ => hl.alive hlive
    case slot => exact fun _ => hl.slot hlive
    case table => exact fun _ => hl.table hlive
    case phase => exact fun _ => hphase _ (hl.phase hlive)
    case exit => intro code ptr hx; rw [show pc.exiting = some (code, ptr) from hx] at hexit; cases hexit
    case fork =>
      intro f k hf
      have hm := hl.fork f k (hfork ▸ hf)
      have hft : f.thread ≠ t := fun heq => by
        have := hm.thread
        rw [heq] at this
        rw [this] at hlive
        cases hlive
      have hfth : ((s.resync lock z cs).setPc t pc).threads f.thread = s.threads f.thread :=
        State.threads_setPc_ne _ hft _
      constructor <;> try rw [hfth]
      case stage => exact hm.stage
      case parent => rw [hthr]; exact hm.parent
      case phase => exact hm.phase
      case old => exact hm.old
      case thread => exact hm.thread
      case cell => exact hm.cell
      case cv => exact hm.cv
      case pid => exact hm.pid
      case ppid => rw [hthr]; exact hm.ppid
      case status => exact hm.status
      case ptr => exact hm.ptr
      case tpid => exact hm.tpid
      case out => exact hm.out
      case listed => exact hm.listed
    case wait =>
      intro w hw hp
      have hws := hwait w hw hp
      exact ⟨hws.slot,hws.table,by rw [hthr]; exact hws.parent,hws.settled⟩
    case needs =>
      have hn : Needs ((s.resync lock z cs).setPc t pc) t pc :=
        Needs.congr (s := s.resync lock z cs) rfl rfl rfl (by rw [hthr]; rfl) hneeds
      exact hn
    case reap => exact fun i hh hr => hl.reap i hh (hreap ▸ hr)
    case makes =>
      intro n hn
      obtain ⟨f,k,hf,hfn⟩ := hl.makes n hn
      exact ⟨f,k,hfork.trans hf,hfn⟩
    case reaps =>
      intro n hn
      obtain ⟨i,hh,hr,hs⟩ := hl.reaps n hn
      exact ⟨i,hh,hreap.trans hr,hs⟩
  · rw [State.threads_setPc_ne _ hu]
    exact Pc.live_of_idle hid
  · rw [← hm]
    exact ⟨hw.slot,hw.table,rfl,hw.settled,rfl⟩

end Move

end OS161.Proc
