/-
The calls of vendored JsonCpp (`3rdpart/jsoncpp`) that read a parsed value, and
the loader monad over them.

`operator[]` with a string key asserts that the value is null or an object;
a conversion is meant for a value of its own type.  A `Loader` is a computation
that ends in a value, in an error text, or in such a misuse.

* `Value`, `find`, `index`, `isMember`, `get`, `asString`, `asInt`, `asBool`;
* `requiredMember`, `optionalMember` — a member of an object read by `read`;
* `Computes` — a loader misuses nothing, accepts exactly `accepted` and then
  gives `value`; `bind`, `guard` and `when` compose it;
* **`Computes.requiredMember`**, **`Computes.optionalMember`** — the two readers.

A `std::string` is a `String` whose characters stand for its bytes.
-/
import Mathlib.Tactic.Common

namespace IpcMini

namespace Jsoncpp

/-- `Json::Value`.  The numbers of `uint` and `real` are never read here. -/
inductive Value
  | null
  | int (value : Int32)
  | uint
  | real
  | string (value : String)
  | boolean (value : Bool)
  | array (elements : List Value)
  /-- the members of an object, one for each key -/
  | object (members : List (String × Value))

/-- A call on a value of another type. -/
inductive Misuse
  | index
  | asString
  | asInt
  | asBool
  deriving DecidableEq, Repr

/-- How a loader ends without a value. -/
inductive Stop
  | error (text : String)
  | misuse (call : Misuse)
  deriving DecidableEq, Repr

abbrev Loader := Except Stop

/-- Set the error text and return false. -/
def refuse {α : Type} (text : String) : Loader α := .error (.error text)

namespace Value

def isNull : Value → Bool
  | .null => true
  | _ => false

def isBool : Value → Bool
  | .boolean _ => true
  | _ => false

def isInt : Value → Bool
  | .int _ => true
  | _ => false

def isString : Value → Bool
  | .string _ => true
  | _ => false

/-- Null counts as an array. -/
def isArray : Value → Bool
  | .null | .array _ => true
  | _ => false

/-- Null counts as an object. -/
def isObject : Value → Bool
  | .null | .object _ => true
  | _ => false

/-- `operator[]`: the member, or `none` where it gives the shared null value. -/
def find (key : String) : Value → Loader (Option Value)
  | .null => .ok none
  | .object members => .ok (members.lookup key)
  | _ => .error (.misuse .index)

def index (value : Value) (key : String) : Loader Value := do
  let found ← value.find key
  return found.getD .null

def isMember (value : Value) (key : String) : Loader Bool := do
  let found ← value.find key
  return found.isSome

def get (value : Value) (key : String) (defaultValue : Value) : Loader Value := do
  let found ← value.find key
  return found.getD defaultValue

def asString : Value → Loader String
  | .string value => .ok value
  | _ => .error (.misuse .asString)

def asInt : Value → Loader Int32
  | .int value => .ok value
  | _ => .error (.misuse .asInt)

def asBool : Value → Loader Bool
  | .boolean value => .ok value
  | _ => .error (.misuse .asBool)

/-- The elements a range-for visits. -/
def elements : Value → List Value
  | .array elements => elements
  | _ => []

/-! ### Members without the assertion -/

/-- The member under `key`, if the value is an object that has one. -/
def member (key : String) : Value → Option Value
  | .object members => members.lookup key
  | _ => none

/-- The member under `key`, null where there is none. -/
def part (value : Value) (key : String) : Value := (value.member key).getD .null

theorem find_eq {value : Value} (h : value.isObject) (key : String) :
    value.find key = .ok (value.member key) := by
  cases value with
  | null => rfl
  | object members => rfl
  | _ => cases h

theorem index_eq {value : Value} (h : value.isObject) (key : String) :
    value.index key = .ok (value.part key) := by
  rw [index, find_eq h]
  rfl

theorem isMember_eq {value : Value} (h : value.isObject) (key : String) :
    value.isMember key = .ok (value.member key).isSome := by
  rw [isMember, find_eq h]
  rfl

theorem get_eq {value : Value} (h : value.isObject) (key : String) (defaultValue : Value) :
    value.get key defaultValue = .ok ((value.member key).getD defaultValue) := by
  rw [get, find_eq h]
  rfl

/-- Only on null and objects may `operator[]` be used. -/
theorem index_misuse {value : Value} (h : value.isObject = false) (key : String) :
    value.index key = .error (.misuse .index) := by
  cases value with
  | null => cases h
  | object members => cases h
  | _ => rfl

theorem member_of_not_isObject {value : Value} (h : value.isObject = false) (key : String) :
    value.member key = none := by
  cases value with
  | object members => cases h
  | _ => rfl

end Value

/-! ### One member of an object -/

section Fields

variable {α : Type} (read : Value → Loader (Option α)) (requirement : String)

/-- The member `field`, which has to be there and to be accepted by `read`. -/
def requiredMember (object : Value) (place field : String) : Loader α :=
  let message := place ++ "." ++ field ++ " " ++ requirement
  if object.isObject then do
    let there ← object.isMember field
    if there then do
      let value ← object.index field
      let accepted ← read value
      accepted.elim (refuse message) .ok
    else refuse message
  else refuse message

/-- The member `field`, or the default where it is missing. -/
def optionalMember (object : Value) (place field : String) (defaultValue : α) : Loader α :=
  if object.isObject then do
    let there ← object.isMember field
    if there then requiredMember read requirement object place field
    else .ok defaultValue
  else .ok defaultValue

end Fields

/-! ### What a loader computes -/

section Computes

variable {α β : Type}

/-- The loader misuses nothing: it gives `value` where the input is accepted, and
an error text where it is not. -/
def Computes (load : Loader α) (accepted : Prop) (value : α) : Prop :=
  accepted ∧ load = .ok value ∨ ¬ accepted ∧ ∃ text, load = refuse text

variable {load : Loader α} {P Q : Prop} {a : α}

theorem Computes.ok_iff (h : Computes load P a) {b : α} : load = .ok b ↔ P ∧ b = a := by
  rcases h with ⟨hP, hl⟩ | ⟨hP, text, hl⟩
  · rw [hl]
    constructor
    · intro hb
      injection hb with hb
      exact ⟨hP, hb.symm⟩
    · rintro ⟨-, rfl⟩
      rfl
  · rw [hl]
    constructor
    · intro hb
      cases hb
    · intro hb
      exact absurd hb.1 hP

theorem Computes.no_misuse (h : Computes load P a) (call : Misuse) :
    load ≠ .error (.misuse call) := by
  rcases h with ⟨-, hl⟩ | ⟨-, text, hl⟩
  · rw [hl]
    intro hm
    cases hm
  · rw [hl]
    intro hm
    cases hm

theorem Computes.of_iff (h : Computes load P a) (hPQ : P ↔ Q) : Computes load Q a := by
  rw [Computes, ← hPQ]
  exact h

theorem Computes.ok (a : α) : Computes (.ok a) True a := .inl ⟨trivial, rfl⟩

theorem Computes.refuse (text : String) (a : α) : Computes (refuse text) False a :=
  .inr ⟨not_false, text, rfl⟩

/-- The second part is looked at where the first one is accepted. -/
theorem Computes.bind {next : α → Loader β} {b : β} (h : Computes load P a)
    (hnext : P → Computes (next a) Q b) : Computes (load >>= next) (P ∧ Q) b := by
  rcases h with ⟨hP, hl⟩ | ⟨hP, text, hl⟩
  · rw [hl]
    exact (hnext hP).of_iff (and_iff_right hP).symm
  · rw [hl]
    exact .inr ⟨fun hPQ => hP hPQ.1, text, rfl⟩

/-- A first part that always gives a value. -/
theorem Computes.after {next : α → Loader β} {b : β} (hl : load = .ok a)
    (h : Computes (next a) Q b) : Computes (load >>= next) Q b := by
  rw [hl]
  exact h

/-- A second part that always gives a value. -/
theorem Computes.bind_ok {next : α → Loader β} {b : β} (h : Computes load P a)
    (hnext : P → next a = .ok b) : Computes (load >>= next) P b := by
  have hb : Computes (load >>= next) (P ∧ True) b :=
    h.bind fun hP => by
      rw [hnext hP]
      exact Computes.ok b
  exact hb.of_iff (and_iff_left trivial)

theorem Computes.map (h : Computes load P a) (f : α → β) :
    Computes (load >>= fun x => pure (f x)) P (f a) := h.bind_ok fun _ => rfl

/-- A check before a loader. -/
theorem Computes.guard {c : Prop} [Decidable c] (text : String) (h : c → Computes load P a) :
    Computes (if c then load else Jsoncpp.refuse text) (c ∧ P) a := by
  by_cases hc : c
  · rw [if_pos hc]
    exact (h hc).of_iff (and_iff_right hc).symm
  · rw [if_neg hc]
    exact (Computes.refuse text a).of_iff ⟨False.elim, fun h => hc h.1⟩

/-- A refusal before a loader. -/
theorem Computes.reject {c : Prop} [Decidable c] (text : String)
    (h : ¬ c → Computes load P a) :
    Computes (if c then Jsoncpp.refuse text else load) (¬ c ∧ P) a := by
  by_cases hc : c
  · rw [if_pos hc]
    exact (Computes.refuse text a).of_iff ⟨False.elim, fun h => h.1 hc⟩
  · rw [if_neg hc]
    exact (h hc).of_iff (and_iff_right hc).symm

/-- A loader that runs on a condition. -/
theorem Computes.when {c : Prop} [Decidable c] {b : α} (h : c → Computes load P a) :
    Computes (if c then load else .ok b) (c → P) (if c then a else b) := by
  by_cases hc : c
  · rw [if_pos hc, if_pos hc]
    exact (h hc).of_iff ⟨fun hP _ => hP, fun hP => hP hc⟩
  · rw [if_neg hc, if_neg hc]
    exact (Computes.ok b).of_iff ⟨fun _ h => absurd h hc, fun _ => trivial⟩

/-! ### What the members of an object compute -/

/-- What `view` makes of the member `name`. -/
def Value.field (view : Value → Option α) (object : Value) (name : String) : Option α :=
  (object.member name).bind view

/-- The member `name` is there and of its type. -/
def Value.Has (view : Value → Option α) (object : Value) (name : String) : Prop :=
  (object.field view name).isSome

/-- The member `name` is missing or of its type. -/
def Value.Allows (view : Value → Option α) (object : Value) (name : String) : Prop :=
  object.member name = none ∨ object.Has view name

/-- The member `name`, or the default. -/
def Value.readOr (view : Value → Option α) (object : Value) (name : String)
    (defaultValue : α) : α :=
  (object.field view name).getD defaultValue

/-- A section of its own inside an object, with a value for where it is missing. -/
theorem Computes.member {object : Value} (ho : object.isObject) (key : String)
    {load : Value → Loader β} {P : Value → Prop} {value : Value → β}
    (h : ∀ v, Computes (load v) (P v) (value v)) (other : β) :
    Computes
      (object.isMember key >>= fun there =>
        if there = true then object.index key >>= load else .ok other)
      (∀ v, object.member key = some v → P v) (((object.member key).map value).getD other) := by
  refine .after (Value.isMember_eq ho key) ?_
  cases hm : object.member key with
  | none =>
    refine (Computes.ok other).of_iff ⟨fun _ v hv => ?_, fun _ => trivial⟩
    cases hv
  | some v =>
    refine .after (Value.index_eq ho key) ?_
    rw [Value.part, hm]
    refine (h v).of_iff ⟨fun hP w hw => ?_, fun hP => hP v rfl⟩
    rwa [← Option.some.inj hw]

variable {read : Value → Loader (Option α)} {view : Value → Option α} {requirement : String}

theorem Computes.requiredMember (hread : ∀ v, read v = .ok (view v)) (object : Value)
    (place field : String) (unread : α) :
    Computes (requiredMember read requirement object place field)
      (object.Has view field) (object.readOr view field unread) := by
  rw [Jsoncpp.requiredMember, Value.Has, Value.readOr, Value.field]
  by_cases ho : object.isObject = true
  · rw [if_pos ho, Value.isMember_eq ho, Value.index_eq ho, Value.part]
    cases hm : object.member field with
    | none => exact .inr ⟨Bool.false_ne_true, _, rfl⟩
    | some v =>
      show Computes (read v >>= fun accepted => accepted.elim _ _) (view v).isSome _
      rw [hread]
      cases hv : view v with
      | none => exact .inr ⟨Bool.false_ne_true, _, rfl⟩
      | some a =>
        refine .inl ⟨rfl, ?_⟩
        show Except.ok a = Except.ok ((view v).getD unread)
        rw [hv]
        rfl
  · rw [if_neg ho, Value.member_of_not_isObject (Bool.eq_false_iff.mpr ho)]
    exact .inr ⟨Bool.false_ne_true, _, rfl⟩

theorem Computes.optionalMember (hread : ∀ v, read v = .ok (view v)) (object : Value)
    (place field : String) (defaultValue : α) :
    Computes (optionalMember read requirement object place field defaultValue)
      (object.Allows view field) (object.readOr view field defaultValue) := by
  have hrequired : Computes (Jsoncpp.requiredMember read requirement object place field)
      (object.Has view field) (object.readOr view field defaultValue) :=
    .requiredMember hread object place field defaultValue
  rw [Jsoncpp.optionalMember, Value.Allows]
  by_cases ho : object.isObject = true
  · rw [if_pos ho, Value.isMember_eq ho]
    cases hm : object.member field with
    | none =>
      refine .inl ⟨.inl rfl, ?_⟩
      rw [Value.readOr, Value.field, hm]
      rfl
    | some v => exact hrequired.of_iff ⟨.inr, fun h => h.resolve_left (Option.some_ne_none v)⟩
  · have hm := Value.member_of_not_isObject (Bool.eq_false_iff.mpr ho) field
    rw [if_neg ho]
    refine .inl ⟨.inl hm, ?_⟩
    rw [Value.readOr, Value.field, hm]
    rfl

end Computes

end Jsoncpp

end IpcMini
