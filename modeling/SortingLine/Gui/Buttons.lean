import SortingLine.Gui.Layout
import SortingLine.Library.Run
import SortingLine.Library.TailqEdit

/-!
# The registry of buttons

The functions of `simple_gui.c` that create and delete buttons, which are the nodes of a tail queue.
A pointer to a button is its node.  `MALLOC` gives some node that is not in the heap, or a null
pointer; what `FREE` takes out of the heap has no links any more, and a function that follows one
has no result.

Next to the registry stands the list that it should be: the buttons that were created and not
deleted, in the order in which they were created.
-/

namespace SortingLine.Gui

/-- `TButton`, as it is created, without its colours. -/
structure TButton where
  rect : TRect
  caption : List UInt8
  guid : ℤ
  group : ℤ
  onclick : Option ℕ
deriving DecidableEq

/-- `gui_buttons`, and how many buttons have been created, a history value: a loop that visits more
nodes than that goes round for ever. -/
structure Registry (ι : Type*) where
  buttons : Tailq ι TButton
  created : ℕ

namespace Buttons

variable {ι : Type*}

/-- `TAILQ_INIT` -/
def empty : Registry ι := { buttons := .empty, created := 0 }

/-- `find_button` -/
def findButton (r : Registry ι) (guid : ℤ) : Option (Option ι) :=
  r.buttons.find (fun btn => btn.guid = guid) r.created r.buttons.first

variable [DecidableEq ι]

/-- `new_button`, where `MALLOC` returns `addr`. -/
def newButton (r : Registry ι) (addr : Option ι) (btn : TButton) :
    Option (Registry ι × Option ι) :=
  (findButton r btn.guid).bind fun found =>
  match found, addr with
  | some _, _ => some (r, none)
  | none, none => some (r, none)
  | none, some pBtn => ((r.buttons.alloc pBtn btn).insertTail pBtn).map fun buttons =>
      ({ buttons, created := r.created + 1 }, some pBtn)

/-- `delete_button_by_guid` -/
def deleteButtonByGuid (r : Registry ι) (guid : ℤ) : Option (Registry ι × ℤ) :=
  (findButton r guid).bind fun btn =>
  match btn with
  | none => some (r, -1)
  | some btn => (r.buttons.remove btn).map fun buttons =>
      ({ r with buttons := buttons.free btn }, 0)

/-- `delete_button` -/
def deleteButton (r : Registry ι) (pBtn : Option ι) : Option (Registry ι × ℤ) :=
  match pBtn with
  | none => some (r, 0)
  | some pBtn => (r.buttons.dataOf pBtn).bind fun btn => deleteButtonByGuid r btn.guid

/-- The loop of `delete_button_by_group`, which goes on from the node that it may have deleted. -/
def groupLoop (group : ℤ) : ℕ → Registry ι → Option ι → Option (Registry ι)
  | _, r, none => some r
  | 0, _, some _ => none
  | n + 1, r, some btn => (r.buttons.dataOf btn).bind fun data =>
      (if data.group = group then (deleteButtonByGuid r data.guid).map Prod.fst else some r).bind
        fun r => (r.buttons.read (.next btn)).bind fun next => groupLoop group n r next

/-- `delete_button_by_group` -/
def deleteButtonByGroup (r : Registry ι) (group : ℤ) : Option (Registry ι × ℤ) :=
  (groupLoop group r.created r r.buttons.first).map fun r => (r, 0)

/-- The loop of `delete_button_all`. -/
def allLoop : ℕ → Registry ι → Option (Registry ι)
  | 0, r => r.buttons.lastNode.bind fun last => if last = none then some r else none
  | n + 1, r => r.buttons.lastNode.bind fun last =>
      match last with
      | none => some r
      | some btn => (r.buttons.remove btn).bind fun buttons =>
          allLoop n { r with buttons := buttons.free btn }

/-- `delete_button_all` -/
def deleteButtonAll (r : Registry ι) : Option (Registry ι) := allLoop r.created r

/-! ### Calls -/

/-- A call; `new` with what `MALLOC` would return. -/
inductive Call (ι : Type*)
  | new (addr : Option ι) (btn : TButton)
  | deleteByGuid (guid : ℤ)
  | delete (pBtn : Option ι)
  | deleteByGroup (group : ℤ)
  | deleteAll

/-- What a call returns. -/
inductive Ret (ι : Type*)
  | pointer (p : Option ι)
  | code (v : ℤ)
  | nothing

/-- A call; there is no result if it follows a link that is not there. -/
def call (r : Registry ι) : Call ι → Option (Registry ι × Ret ι)
  | .new addr btn => (newButton r addr btn).map fun x => (x.1, .pointer x.2)
  | .deleteByGuid guid => (deleteButtonByGuid r guid).map fun x => (x.1, .code x.2)
  | .delete pBtn => (deleteButton r pBtn).map fun x => (x.1, .code x.2)
  | .deleteByGroup group => (deleteButtonByGroup r group).map fun x => (x.1, .code x.2)
  | .deleteAll => (deleteButtonAll r).map fun r => (r, .nothing)

/-- `MALLOC` returns a node that is not in use, and a pointer to a button is one to a button that
there is. -/
def Allowed (r : Registry ι) : Call ι → Prop
  | .new (some addr) _ => r.buttons.dataOf addr = none
  | .delete (some pBtn) => r.buttons.dataOf pBtn ≠ none
  | _ => True

instance (r : Registry ι) (c : Call ι) : Decidable (Allowed r c) :=
  match c with
  | .new (some addr) _ => inferInstanceAs (Decidable (r.buttons.dataOf addr = none))
  | .delete (some pBtn) => inferInstanceAs (Decidable (r.buttons.dataOf pBtn ≠ none))
  | .new none _ => .isTrue trivial
  | .delete none => .isTrue trivial
  | .deleteByGuid _ => .isTrue trivial
  | .deleteByGroup _ => .isTrue trivial
  | .deleteAll => .isTrue trivial

/-! ### The list that it should be -/

/-- What a call should do to the buttons that were created and not deleted, and what it should
return. -/
def expected (l : List (ι × TButton)) : Call ι → List (ι × TButton) × Ret ι
  | .new addr btn =>
    match addr with
    | none => (l, .pointer none)
    | some addr =>
      -- a number that is in use is refused
      if l.any (fun x => x.2.guid = btn.guid) then (l, .pointer none)
      else (l ++ [(addr, btn)], .pointer (some addr))
  | .deleteByGuid guid =>
    (l.filter fun x => x.2.guid ≠ guid, .code (if l.any (fun x => x.2.guid = guid) then 0 else -1))
  | .delete none => (l, .code 0)
  | .delete (some pBtn) => (l.filter fun x => x.1 ≠ pBtn, .code 0)
  | .deleteByGroup group => (l.filter fun x => x.2.group ≠ group, .code 0)
  | .deleteAll => ([], .nothing)

/-- The registry, unless a link was followed that is not there, and the list; each with what it has
returned last. -/
structure Paired (ι : Type*) where
  registry : Option (Registry ι)
  ret : Ret ι
  list : List (ι × TButton)
  listRet : Ret ι

/-- No button yet. -/
def Paired.start : Paired ι :=
  { registry := some empty, ret := .nothing, list := [], listRet := .nothing }

/-- One call. -/
def step (s : Paired ι) (c : Call ι) : Option (Paired ι) :=
  s.registry.bind fun r =>
    if Allowed r c then
      some
        { registry := (call r c).map Prod.fst
          ret := (call r c).elim .nothing Prod.snd
          list := (expected s.list c).1
          listRet := (expected s.list c).2 }
    else none

/-- The registered buttons are those of the list, with different numbers, and the last call has
returned what it should. -/
structure Registered (s : Paired ι) (r : Registry ι) : Prop where
  registry : s.registry = some r
  nodes : r.buttons.Represents (s.list.map Prod.fst)
  data : ∀ x ∈ s.list, r.buttons.dataOf x.1 = some x.2
  guids : (s.list.map fun x => x.2.guid).Nodup
  returned : s.ret = s.listRet

/-- No link was followed that is not there, and the registry is as it should be. -/
def Sound (s : Paired ι) : Prop := ∃ r, Registered s r

/-- The runs of calls. -/
def Reaches (tr : List (Paired ι × Call ι)) (s : Paired ι) : Prop := Run step Paired.start tr s

end Buttons

end SortingLine.Gui
