import OS161.Lib.CString
import OS161.Proc.ForkFail
import OS161.Userprog.Execv

namespace OS161

def Errno.code : Errno → Nat
  | .einval => 1 | .efault => 2 | .enametoolong => 3 | .enomem => 4 | .eio => 5 | .enoent => 6
  | .enotdir => 7 | .eisdir => 8 | .eexist => 9 | .exdev => 10 | .eagain => 11 | .espipe => 12
  | .eunimp => 13 | .enxio => 14 | .enodev => 15 | .ebusy => 16 | .eioctl => 17 | .enotempty => 18
  | .erange => 19 | .enospc => 20 | .emfile => 21 | .enfile => 22 | .enosys => 23 | .enoexec => 24
  | .e2big => 25 | .ebadf => 26

theorem Errno.code_pos (e : Errno) : 0 < e.code := by cases e <;> decide

theorem Errno.code_le (e : Errno) : e.code ≤ 26 := by cases e <;> decide

namespace Syscall

open Execv (splHigh)

structure Trapframe where
  v0 : Nat
  a0 : Nat
  a1 : Nat
  a2 : Nat
  a3 : Nat
  epc : Nat
  deriving DecidableEq, Repr

inductive Callno where
  | exit | execv | fork | waitpid | read | write | reboot | sbrk | getpid | unknown
  deriving DecidableEq, Repr

def callno : Nat → Callno
  | 0 => .exit
  | 1 => .execv
  | 2 => .fork
  | 3 => .waitpid
  | 5 => .read
  | 6 => .write
  | 8 => .reboot
  | 10 => .sbrk
  | 11 => .getpid
  | _ => .unknown

structure Machine where
  kernel : Fork.Kernel
  cur : Fork.Curthread
  vmspace : Option Nat
  curspl : Nat
  mem : Mem
  console : List Byte

-- What the calls out of a handler do; those that sleep let other threads run. All of them leave
-- curspl as they found it.
structure Env where
  childtf : Option Nat
  junk : AddrSpace
  threadFork : Fork.Kernel → Kern (Except Errno Int × Fork.Kernel)
  lockAcquire : Fork.Kernel → Kern Fork.Kernel
  cvWait : Fork.Kernel → Kern Fork.Kernel
  getch : Byte
  storeFaults : Nat → Bool
  execv : Execv.Answers

-- A handler's C return value and what it left in *retval.
structure Raw where
  ret : Int
  out : Int
  deriving DecidableEq, Repr

def Raw.err (e : Errno) : Raw := ⟨e.code, 0⟩

section
variable (env : Env)

def splhigh (m : Machine) : Nat × Machine := (m.curspl, { m with curspl := splHigh })

def splx (spl : Nat) (m : Machine) : Machine := { m with curspl := spl }

-- A store of the kernel itself through a user pointer, not through copyout.
def store (m : Machine) (addr : Nat) (put : Mem → Mem) : Kern Machine :=
  if env.storeFaults addr then .error (.panic "Fatal exception in kernel mode")
  else .ok { m with mem := put m.mem }

def sysReboot (code : Int) (m : Machine) : Kern (Raw × Machine) :=
  if code = 0 ∨ code = 1 ∨ code = 2 then .error .hang else .ok (.err .einval, m)

def sysFork (m : Machine) : Kern (Raw × Machine) :=
  if Proc.maxpid ≤ m.cur.pid then .ok (.err .eagain, m)
  else
    match env.childtf with
    | none => .ok (.err .enomem, m)
    | some childtf =>
      let k := m.kernel.kmalloc childtf
      match m.vmspace.bind k.sys.vm.spaces with
      | none => .error (.panic "Fatal exception in kernel mode")
      | some old =>
        match Fork.copySpace env.junk k.sys old with
        | (none, sys) => .ok (.err .enomem, { m with kernel := ({ k with sys := sys }).kfree childtf })
        | (some _, sys) => do
          match ← env.threadFork { k with sys := { sys with vm := asActivate sys.vm } } with
          | (.error _, k) => .ok (.err .enomem, { m with kernel := k.kfree childtf })
          | (.ok pid, k) => .ok (⟨0, pid⟩, { m with kernel := k })

def getProcess (k : Fork.Kernel) (pid : Int) : Option Nat :=
  if Proc.maxpid < pid ∨ pid < Proc.minpid then none else k.table pid

def awaitChild (child : Nat) (k : Fork.Kernel) : Kern Fork.Kernel :=
  if (k.procs child).status = .stop then .ok k else env.cvWait k

def sysWaitpid (pid : Int) (status : Nat) (options : Int) (m : Machine) : Kern (Raw × Machine) :=
  if options ≠ 0 then .ok (.err .einval, m)
  else if status = 0 then .ok (.err .efault, m)
  else
    match getProcess m.kernel pid with
    | none => .ok (.err .efault, m)
    | some child => do
      let k ← env.lockAcquire m.kernel
      if (k.procs child).ppid ≠ m.cur.pid then
        .ok (.err .einval, { m with kernel := k.lockRelease })
      else
        let k ← awaitChild env child k
        let m ← store env { m with kernel := k } status
          (Bytes.store32 · status (u32 (k.procs child).exitcode))
        .ok (⟨0, (k.procs child).pid⟩, { m with kernel := k.lockRelease.lockRelease })

def sysGetpid (m : Machine) : Kern (Raw × Machine) := .ok (⟨m.cur.pid, 0⟩, m)

def sysWrite (filehandle : Int) (buf size : Nat) (m : Machine) : Kern (Raw × Machine) :=
  if filehandle < 0 ∨ 2 < filehandle then .ok (.err .ebadf, m)
  else if buf = 0 then .ok (.err .efault, m)
  else do
    let m ← store env m (u32 (buf + size)) (Function.update · (u32 (buf + size)) 0)
    .ok (⟨0, 0⟩, { m with console := m.console ++ (CString.read m.mem buf size).bytes })

def sysRead (buf : Nat) (m : Machine) : Kern (Raw × Machine) := do
  let c := if env.getch = 13 then 10 else env.getch
  let m ← store env m buf (Function.update · buf c)
  .ok (⟨0, Int.bmod c.toNat 256⟩, m)

def sysExecv (m : Machine) : Kern (Raw × Machine) := do
  match ← Execv.sysExecv env.execv ⟨m.kernel.sys, m.vmspace, m.curspl, []⟩ with
  | (.usermode _ _ _, _) => .error .hang
  | (.ret e, c) =>
    .ok (.err e, { m with
      kernel := { m.kernel with sys := c.sys }, vmspace := c.vmspace, curspl := c.curspl })

def sysSbrk (size : Int) (m : Machine) : Kern (Raw × Machine) :=
  let (spl, m) := splhigh m
  match m.vmspace with
  | none => .error (.panic "Fatal exception in kernel mode")
  | some as =>
    match m.kernel.sys.vm.spaces as with
    | none => .error (.panic "Fatal exception in kernel mode")
    | some sp =>
      let (ret, sp) := OS161.sysSbrk size sp
      let sys := { m.kernel.sys with vm := m.kernel.sys.vm.setSpace as sp }
      .ok (⟨ret, 0⟩, splx spl { m with kernel := { m.kernel with sys := sys } })

def handler (tf : Trapframe) (m : Machine) : Kern (Raw × Machine) :=
  match callno tf.v0 with
  | .reboot => sysReboot (offT tf.a0) m
  | .fork => sysFork env m
  | .waitpid => sysWaitpid env (offT tf.a0) tf.a1 (offT tf.a2) m
  -- thread_exit does not come back.
  | .exit => .error .hang
  | .getpid => sysGetpid m
  | .write => sysWrite env (offT tf.a0) tf.a1 tf.a2 m
  | .read => sysRead env tf.a1 m
  | .execv => sysExecv env m
  | .sbrk => sysSbrk (offT tf.a0) m
  | .unknown => .ok (⟨0, 0⟩, m)

def Callno.answer : Callno → Raw → Int × Int
  | .reboot, raw | .fork, raw | .waitpid, raw | .write, raw | .read, raw => (raw.ret, raw.out)
  | .exit, raw => (0, raw.out)
  | .getpid, raw | .execv, raw | .sbrk, raw => (0, raw.ret)
  | .unknown, raw => (Errno.enosys.code, raw.out)

def Trapframe.deliver (tf : Trapframe) (err retval : Int) : Trapframe :=
  let tf :=
    if err ≠ 0 then { tf with v0 := u32 err, a3 := 1 } else { tf with v0 := u32 retval, a3 := 0 }
  { tf with epc := u32 ((tf.epc : Int) + 4) }

def mipsSyscall (tf : Trapframe) (m : Machine) : Kern (Trapframe × Machine) := do
  assert (m.curspl = 0) "curspl==0"
  let (raw, m) ← handler env tf m
  let (err, retval) := (callno tf.v0).answer raw
  let tf := tf.deliver err retval
  assert (m.curspl = 0) "curspl==0"
  .ok (tf, m)

end

inductive Report where
  | failed
  | done (value : Int)
  deriving DecidableEq, Repr

-- How each handler says what became of the call.
def Callno.report : Callno → Raw → Report
  | .reboot, raw | .fork, raw | .waitpid, raw | .write, raw | .read, raw =>
    if raw.ret = 0 then .done raw.out else .failed
  | .exit, raw => .done raw.out
  | .getpid, raw => .done raw.ret
  | .execv, _ => .failed
  | .sbrk, raw => if raw.ret = -1 then .failed else .done raw.ret
  | .unknown, _ => .failed

def Report.Delivered (tf : Trapframe) : Report → Prop
  | .failed => tf.a3 = 1 ∧ ∃ e : Errno, tf.v0 = e.code
  | .done value => tf.a3 = 0 ∧ tf.v0 = u32 value

structure Kept (env : Env) (tf : Trapframe) (m : Machine) (report : Report) (tf' : Trapframe)
    (m' : Machine) : Prop where
  returns : mipsSyscall env tf m = .ok (tf', m')
  curspl : m'.curspl = 0
  epc : tf'.epc = u32 ((tf.epc : Int) + 4)
  delivered : report.Delivered tf'

-- A break at 0xffffffff, which no heap reaches, would read as -1.
def SbrkFails (size : Int) (sp : AddrSpace) : Prop :=
  mallocLimit ≤ size ∨ heapSize < u32 (u32 (sp.heapEnd + size) - sp.heapStart) ∨
    offT sp.heapEnd = -1

def sbrkRefused (tf : Trapframe) (m : Machine) : Prop :=
  ∃ as sp, m.vmspace = some as ∧ m.kernel.sys.vm.spaces as = some sp ∧ SbrkFails (offT tf.a0) sp

section Contract
variable {env : Env} {tf : Trapframe} {m m' : Machine} {raw : Raw}

structure Plain (m : Machine) (raw : Raw) (m' : Machine) : Prop where
  curspl : m'.curspl = m.curspl
  err : raw.ret = 0 ∨ ∃ e : Errno, raw.ret = e.code

theorem Plain.failed (e : Errno) (h : m'.curspl = m.curspl) : Plain m (.err e) m' :=
  ⟨h,.inr ⟨e,rfl⟩⟩

theorem store_ok {addr : Nat} {put : Mem → Mem} (h : store env m addr put = .ok m') :
    m' = { m with mem := put m.mem } := by
  unfold store at h
  split at h <;> cases h
  rfl

theorem sysReboot_plain {code : Int} (h : sysReboot code m = .ok (raw, m')) : Plain m raw m' := by
  unfold sysReboot at h
  split at h <;> cases h
  exact .failed _ rfl

theorem sysFork_plain (h : sysFork env m = .ok (raw, m')) : Plain m raw m' := by
  unfold sysFork at h
  split at h
  · cases h
    exact .failed _ rfl
  split at h
  · cases h
    exact .failed _ rfl
  dsimp only at h
  split at h
  · cases h
  split at h
  · cases h
    exact .failed _ rfl
  · obtain ⟨⟨result,k⟩,-,h₁⟩ := bind_ok h
    cases result with
    | error e =>
      cases h₁
      exact .failed _ rfl
    | ok pid =>
      cases h₁
      exact ⟨rfl,.inl rfl⟩

theorem sysWaitpid_plain {pid options : Int} {status : Nat}
    (h : sysWaitpid env pid status options m = .ok (raw, m')) : Plain m raw m' := by
  unfold sysWaitpid at h
  split at h
  · cases h
    exact .failed _ rfl
  split at h
  · cases h
    exact .failed _ rfl
  split at h
  · cases h
    exact .failed _ rfl
  obtain ⟨k,-,h₁⟩ := bind_ok h
  split at h₁
  · cases h₁
    exact .failed _ rfl
  · obtain ⟨k',-,h₂⟩ := bind_ok h₁
    obtain ⟨m₁,hm₁,h₃⟩ := bind_ok h₂
    obtain rfl := store_ok hm₁
    cases h₃
    exact ⟨rfl,.inl rfl⟩

theorem sysWrite_plain {filehandle : Int} {buf size : Nat}
    (h : sysWrite env filehandle buf size m = .ok (raw, m')) : Plain m raw m' := by
  unfold sysWrite at h
  split at h
  · cases h
    exact .failed _ rfl
  split at h
  · cases h
    exact .failed _ rfl
  · obtain ⟨m₁,hm₁,h₁⟩ := bind_ok h
    obtain rfl := store_ok hm₁
    cases h₁
    exact ⟨rfl,.inl rfl⟩

theorem sysRead_plain {buf : Nat} (h : sysRead env buf m = .ok (raw, m')) : Plain m raw m' := by
  obtain ⟨m₁,hm₁,h₁⟩ := bind_ok h
  obtain rfl := store_ok hm₁
  cases h₁
  exact ⟨rfl,.inl rfl⟩

theorem deliver_epc (tf : Trapframe) (err retval : Int) :
    (tf.deliver err retval).epc = u32 ((tf.epc : Int) + 4) := by
  unfold Trapframe.deliver
  split <;> rfl

theorem deliver_error (tf : Trapframe) (e : Errno) (retval : Int) :
    Report.failed.Delivered (tf.deliver e.code retval) := by
  have hpos := e.code_pos
  have hle := e.code_le
  unfold Trapframe.deliver
  rw [if_pos (by omega)]
  exact ⟨rfl,e,u32_of_nat (by omega)⟩

theorem deliver_done (tf : Trapframe) (retval : Int) :
    (Report.done retval).Delivered (tf.deliver 0 retval) := ⟨rfl,rfl⟩

theorem mipsSyscall_eq (h0 : m.curspl = 0) (hh : handler env tf m = .ok (raw, m')) :
    mipsSyscall env tf m =
      if m'.curspl = 0 then
        .ok (tf.deliver ((callno tf.v0).answer raw).1 ((callno tf.v0).answer raw).2, m')
      else .error (.panic "curspl==0") := by
  unfold mipsSyscall
  rw [assert_of (decide_eq_true h0),ok_bind,hh,ok_bind]
  dsimp only
  split_ifs with hs
  · rw [assert_of (decide_eq_true hs),ok_bind]
  · rw [decide_eq_false hs,assert_false]
    rfl

theorem kept_iff (h0 : m.curspl = 0) (hh : handler env tf m = .ok (raw, m')) (report : Report) :
    (∃ tf' m'', Kept env tf m report tf' m'') ↔ m'.curspl = 0 ∧
      report.Delivered (tf.deliver ((callno tf.v0).answer raw).1 ((callno tf.v0).answer raw).2) := by
  have heq := mipsSyscall_eq h0 hh
  constructor
  · rintro ⟨tf',m'',hk⟩
    have hret := hk.returns
    rw [heq] at hret
    split_ifs at hret with hs
    cases hret
    exact ⟨hs,hk.delivered⟩
  · rintro ⟨hs,hd⟩
    rw [if_pos hs] at heq
    exact ⟨_,m',heq,hs,deliver_epc _ _ _,hd⟩

theorem Plain.delivered (hp : Plain m raw m') (tf : Trapframe) :
    (if raw.ret = 0 then Report.done raw.out else .failed).Delivered (tf.deliver raw.ret raw.out) := by
  rcases hp.err with hz | ⟨e,he⟩
  · rw [if_pos hz,hz]
    exact deliver_done tf raw.out
  · have hpos := e.code_pos
    rw [if_neg (by omega),he]
    exact deliver_error tf e raw.out

theorem sbrkFails_iff {size : Int} {sp : AddrSpace} :
    (OS161.sysSbrk size sp).1 = -1 ↔ SbrkFails size sp := by
  unfold OS161.sysSbrk SbrkFails
  dsimp only
  split_ifs with hlimit hroom
  · exact iff_of_true rfl (.inl hlimit)
  · exact iff_of_true rfl (.inr (.inl hroom))
  · simp only [hlimit,hroom,false_or]

theorem sysSbrk_refused {size : Int} (h : sysSbrk size m = .ok (raw, m')) :
    m'.curspl = m.curspl ∧ (raw.ret = -1 ↔ ∃ as sp, m.vmspace = some as ∧
      m.kernel.sys.vm.spaces as = some sp ∧ SbrkFails size sp) := by
  unfold sysSbrk splhigh at h
  dsimp only at h
  split at h
  · cases h
  · rename_i as has
    split at h
    · cases h
    · rename_i sp hsp
      cases h
      refine ⟨rfl,fun hret => ⟨as,sp,has,hsp,sbrkFails_iff.mp hret⟩,?_⟩
      rintro ⟨as',sp',has',hsp',hfails⟩
      cases has.symm.trans has'
      cases hsp.symm.trans hsp'
      exact sbrkFails_iff.mpr hfails

end Contract

theorem syscall_contract_iff {env : Env} {tf : Trapframe} {m m' : Machine} {raw : Raw}
    (h0 : m.curspl = 0) (hh : handler env tf m = .ok (raw, m')) :
    (∃ tf' m', Kept env tf m ((callno tf.v0).report raw) tf' m') ↔
      callno tf.v0 ≠ .execv ∧ ¬ (callno tf.v0 = .sbrk ∧ sbrkRefused tf m) := by
  rw [kept_iff h0 hh]
  unfold handler at hh
  have hplain : ∀ {c : Callno}, c ≠ .execv → c ≠ .sbrk → Plain m raw m' →
      c.answer raw = (raw.ret, raw.out) →
      c.report raw = (if raw.ret = 0 then .done raw.out else .failed) →
      (m'.curspl = 0 ∧ (c.report raw).Delivered (tf.deliver (c.answer raw).1 (c.answer raw).2) ↔
        c ≠ .execv ∧ ¬ (c = .sbrk ∧ sbrkRefused tf m)) := by
    intro c hx hs hp hanswer hreport
    rw [hanswer,hreport]
    exact iff_of_true ⟨hp.curspl.trans h0,hp.delivered tf⟩ ⟨hx,fun h => hs h.1⟩
  generalize callno tf.v0 = c at hh ⊢
  cases c with
  | exit => cases hh
  | execv =>
    refine iff_of_false (fun h => ?_) (fun h => h.1 rfl)
    exact nomatch h.2.1
  | fork => exact hplain (by decide) (by decide) (sysFork_plain hh) rfl rfl
  | waitpid => exact hplain (by decide) (by decide) (sysWaitpid_plain hh) rfl rfl
  | read => exact hplain (by decide) (by decide) (sysRead_plain hh) rfl rfl
  | write => exact hplain (by decide) (by decide) (sysWrite_plain hh) rfl rfl
  | reboot => exact hplain (by decide) (by decide) (sysReboot_plain hh) rfl rfl
  | sbrk =>
    obtain ⟨hspl,hret⟩ := sysSbrk_refused hh
    by_cases hr : raw.ret = -1
    · refine iff_of_false (fun h => ?_) (fun h => h.2 ⟨rfl,hret.mp hr⟩)
      have hd := h.2
      rw [show Callno.report .sbrk raw = .failed from if_pos hr] at hd
      exact nomatch hd.1
    · refine iff_of_true ⟨hspl.trans h0,?_⟩ ⟨by decide,fun h => hr (hret.mpr h.2)⟩
      rw [show Callno.report .sbrk raw = .done raw.ret from if_neg hr]
      exact deliver_done tf raw.ret
  | getpid =>
    cases hh
    exact iff_of_true ⟨h0,deliver_done tf _⟩ ⟨by decide,fun h => nomatch h.1⟩
  | unknown =>
    cases hh
    exact iff_of_true ⟨h0,deliver_error tf .enosys 0⟩ ⟨by decide,fun h => nomatch h.1⟩

def env : Env where
  childtf := some 1
  junk := zeroSpace
  threadFork k := do
    let (result, k) ← Fork.threadFork k Fork.menu Fork.plenty
    .ok (result.map Fork.Newguy.pid, k)
  lockAcquire k := k.lockAcquire Fork.menu
  cvWait _ := .error .asleep
  getch := 97
  storeFaults _ := false
  execv := Execv.answers (.error .enoent) []

def machine : Machine where
  kernel := { Fork.bootKernel with
    sys := ⟨(asCreate zeroSpace freshBoot.vm).2,
      Function.update freshBoot.live 0x80011000 (some .space)⟩ }
  cur := Fork.menu
  vmspace := some 0x80011000
  curspl := 0
  mem := zeros
  console := []

def frame (v0 a0 : Nat) : Trapframe := ⟨v0, a0, 0, 0, 0, 0x400000⟩

theorem syscall_contract_getpid :
    ∃ raw m', handler env (frame 11 0) machine = .ok (raw, m') ∧
      ∃ tf' m', Kept env (frame 11 0) machine (Callno.report .getpid raw) tf' m' := by
  have hh : handler env (frame 11 0) machine = .ok (⟨Proc.minpid,0⟩, machine) := rfl
  refine ⟨_,_,hh,(syscall_contract_iff rfl hh).mpr ⟨by decide,fun h => ?_⟩⟩
  exact absurd h.1 (by decide)

theorem execv_and_sbrk_break_contract :
    (∃ raw m', handler env (frame 1 0) machine = .ok (raw, m') ∧
      mipsSyscall env (frame 1 0) machine = .error (.panic "curspl==0")) ∧
    ∃ raw m' tf' m'', handler env (frame 10 131072) machine = .ok (raw, m') ∧
      Callno.report .sbrk raw = .failed ∧
      mipsSyscall env (frame 10 131072) machine = .ok (tf', m'') ∧
      ¬ Report.failed.Delivered tf' := by
  have hraw : (handler env (frame 10 131072) machine).toOption.map Prod.fst = some ⟨-1,0⟩ := by
    decide +kernel
  have hframe : (mipsSyscall env (frame 10 131072) machine).toOption.map Prod.fst =
      some ⟨0xffffffff,131072,0,0,0,0x400004⟩ := by decide +kernel
  obtain ⟨⟨raw,m'⟩,hh,rfl⟩ := Option.map_eq_some_iff.mp hraw
  obtain ⟨⟨tf',m''⟩,hs,rfl⟩ := Option.map_eq_some_iff.mp hframe
  refine ⟨⟨.err .enoent,_,rfl,rfl⟩,?_⟩
  exact ⟨_,m',_,m'',ok_of_toOption hh,rfl,ok_of_toOption hs,fun h => nomatch h.1⟩

end Syscall

end OS161
