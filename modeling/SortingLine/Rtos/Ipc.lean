import Mathlib.Data.List.Basic

/-!
# Lists of threads that wait

`rt_ipc_list_suspend` of `RTT4/src/ipc.c` puts a thread on the list of an object: behind all others,
or by its priority, where a smaller number is more urgent.
-/

namespace SortingLine

/-- `RT_IPC_FLAG_FIFO` and `RT_IPC_FLAG_PRIO` -/
inductive IpcFlag
  | fifo
  | prio
deriving DecidableEq, Repr

/-- What the calls return, and `thread->error`. -/
inductive IpcErr
  | eok
  | error
  | etimeout
  | efull
deriving DecidableEq, Repr

/-- The thread goes before the first one that is less urgent. -/
def insertPrio (priority : ℕ → ℕ) (thread : ℕ) : List ℕ → List ℕ
  | [] => [thread]
  | sthread :: list =>
    if priority thread < priority sthread then thread :: sthread :: list
    else sthread :: insertPrio priority thread list

/-- `rt_ipc_list_suspend` -/
def rtIpcListSuspend (flag : IpcFlag) (priority : ℕ → ℕ) (list : List ℕ) (thread : ℕ) : List ℕ :=
  match flag with
  | .fifo => list ++ [thread]
  | .prio => insertPrio priority thread list

section Lemmas

variable {flag : IpcFlag} {priority : ℕ → ℕ} {list : List ℕ} {thread t : ℕ}

theorem insertPrio_perm (priority : ℕ → ℕ) (thread : ℕ) (list : List ℕ) :
    (insertPrio priority thread list).Perm (thread :: list) := by
  induction list with
  | nil => exact .refl _
  | cons s list ih =>
    rw [insertPrio]
    split_ifs
    · exact .refl _
    · exact (ih.cons s).trans (.swap ..)

/-- The list has one thread more. -/
theorem rtIpcListSuspend_perm (flag : IpcFlag) (priority : ℕ → ℕ) (list : List ℕ) (thread : ℕ) :
    (rtIpcListSuspend flag priority list thread).Perm (thread :: list) := by
  cases flag with
  | fifo => exact List.perm_append_singleton thread list
  | prio => exact insertPrio_perm priority thread list

theorem mem_rtIpcListSuspend :
    t ∈ rtIpcListSuspend flag priority list thread ↔ t = thread ∨ t ∈ list := by
  rw [(rtIpcListSuspend_perm flag priority list thread).mem_iff, List.mem_cons]

end Lemmas

end SortingLine
