import Codegen.NameTable
import Mathlib.Data.List.Infix

/-!
Names of strings. Whatever a table is asked and in whatever order, its map and its strings stay
inverse to each other. The strings are those that were interned, in the order in which each was
interned first, and names are their positions, so that strings and names determine each other for as
long as the table is used.
-/

namespace Codegen.NameTable

/-- What a table is asked. -/
inductive Call where
  | intern (s : String)
  | find (s : String)
  deriving DecidableEq, Repr

/-- The table after a call. -/
def ask (t : NameTable) : Call → NameTable
  | .intern s => (t.intern s).2
  | .find _ => t

/-- The table after calls, one after the other. -/
def after (t : NameTable) (calls : List Call) : NameTable := calls.foldl ask t

/-- The string that a call enters if it is new. -/
def Call.entered? : Call → Option String
  | .intern s => some s
  | .find _ => none

/-- The strings that are interned after calls on a new table. The empty string is so from the
start. -/
def known (calls : List Call) : List String := "" :: calls.filterMap Call.entered?

variable {t : NameTable} {s : String} {name : Name}

/-! ## One call -/

theorem find?_eq_none_iff : t.find? s = none ↔ s ∉ t.strings.toList := by
  rw [Option.eq_none_iff_forall_ne_some, List.mem_iff_getElem?]
  constructor
  · rintro none ⟨i, at'⟩
    exact none ⟨i⟩ (find?_eq_some_iff.2 (Array.getElem?_toList ▸ at'))
  · rintro absent ⟨i⟩ found
    exact absent ⟨i, Array.getElem?_toList.trans (find?_eq_some_iff.1 found)⟩

theorem intern_of_find? (found : t.find? s = some name) : t.intern s = (name, t) := by
  unfold intern
  split <;> simp_all

theorem exists_find? (mem : s ∈ t.strings.toList) : ∃ name, t.find? s = some name := by
  cases found : t.find? s with
  | none => exact absurd mem (find?_eq_none_iff.1 found)
  | some name => exact ⟨name, rfl⟩

theorem strings_intern (new : s ∉ t.strings.toList) :
    (t.intern s).2.strings = t.strings.push s := by
  unfold intern
  split
  · rename_i found
    simp [find?_eq_none_iff.2 new] at found
  · rfl

theorem lookup_eq_ok : t.lookup name = .ok s ↔ t.strings[name.index]? = some s := by
  unfold lookup
  split <;> simp_all

/-- One more string is known after a call, unless it was known before. -/
theorem strings_ask (call : Call) : (t.ask call).strings.toList =
    t.strings.toList ++ call.entered?.toList.filter (· ∉ t.strings.toList) := by
  cases call with
  | find s => simp [ask, Call.entered?]
  | intern s =>
    by_cases mem : s ∈ t.strings.toList
    · obtain ⟨_, found⟩ := exists_find? mem
      rw [ask, intern_of_find? found]
      simp_all [Call.entered?]
    · rw [ask, strings_intern mem]
      simp_all [Call.entered?]

/-! ## Any number of calls -/

/-- Calls only add strings, at the end. -/
theorem prefix_after (t : NameTable) (calls : List Call) :
    t.strings.toList <+: (t.after calls).strings.toList := by
  induction calls generalizing t with
  | nil => exact List.prefix_refl _
  | cons call calls ih =>
    refine .trans ?_ (ih (t.ask call))
    rw [strings_ask]
    exact List.prefix_append _ _

theorem mem_after {calls : List Call} : s ∈ (t.after calls).strings.toList ↔
    s ∈ t.strings.toList ∨ s ∈ calls.filterMap Call.entered? := by
  induction calls generalizing t with
  | nil => simp [after]
  | cons call calls ih =>
    change s ∈ ((t.ask call).after calls).strings.toList ↔ _
    rw [ih, strings_ask]
    cases entered : call.entered? with
    | none => simp [entered]
    | some s' =>
      by_cases e : s = s'
      · by_cases mem : s ∈ t.strings.toList <;> simp_all
      · by_cases mem : s' ∈ t.strings.toList <;> simp_all

theorem lookup_after {calls : List Call} (found : t.lookup name = .ok s) :
    (t.after calls).lookup name = .ok s := by
  rw [lookup_eq_ok, ← Array.getElem?_toList] at found ⊢
  obtain ⟨more, e⟩ := prefix_after t calls
  rw [← e, List.getElem?_append_left (List.getElem?_eq_some_iff.1 found).1, found]

/-- Questions leave no trace. -/
theorem after_eq_filter (t : NameTable) (calls : List Call) :
    t.after calls = t.after (calls.filter (·.entered?.isSome)) := by
  induction calls generalizing t with
  | nil => rfl
  | cons call calls ih =>
    cases call with
    | intern s => exact ih (t.intern s).2
    | find s => exact ih t

section

variable (calls : List Call)

theorem mem_strings_iff : s ∈ (initial.after calls).strings.toList ↔ s ∈ known calls := by
  rw [mem_after, known, List.mem_cons]
  exact or_congr_left List.mem_singleton

/-- A string that was interned is found under the name that it keeps. -/
theorem find?_after : (initial.after calls).find? s =
    if s ∈ known calls then some ((initial.after calls).intern s).1 else none := by
  split
  · rename_i mem
    obtain ⟨name, found⟩ := exists_find? ((mem_strings_iff calls).2 mem)
    rw [intern_of_find? found, found]
  · rename_i new
    exact find?_eq_none_iff.2 (mt (mem_strings_iff calls).1 new)

/-- A table grows by the strings that are new. -/
theorem size_intern : ((initial.after calls).intern s).2.size =
    (initial.after calls).size + if s ∈ known calls then 0 else 1 := by
  split
  · rename_i mem
    obtain ⟨name, found⟩ := exists_find? ((mem_strings_iff calls).2 mem)
    rw [intern_of_find? found]
    rfl
  · rename_i new
    simp [size, strings_intern (mt (mem_strings_iff calls).1 new)]

/-- Names of strings are equal exactly if the strings are, however long one is given after the
other. -/
theorem intern_inj (s s' : String) (later : List Call) :
    let t := initial.after calls
    (t.intern s).1 = (((t.intern s).2.after later).intern s').1 ↔ s = s' := by
  intro t
  let u := (t.intern s).2.after later
  have kept : u.lookup (t.intern s).1 = .ok s := lookup_after (lookup_intern t s)
  constructor
  · intro same
    have first : (u.after [.intern s']).lookup (t.intern s).1 = .ok s := lookup_after kept
    have second : (u.after [.intern s']).lookup (u.intern s').1 = .ok s' := lookup_intern u s'
    rw [same, second] at first
    exact (Except.ok.inj first).symm
  · rintro rfl
    rw [intern_of_find? (find?_eq_some_iff.2 (lookup_eq_ok.1 kept))]

end

/-- After any calls on a new table, its map and its strings are inverse to each other, so that
strings and names determine each other, and go on to do so whatever is called later. Names are the
numbers below the size of the table, with the empty string at 0. A string is found exactly if it was
interned; only a new one makes the table longer. -/
theorem names_bijective (calls : List Call) :
    let t := initial.after calls
    (∀ s name, t.map.lookup s = some name ↔ t.strings[name.index]? = some s) ∧
    (∀ s later, ((t.intern s).2.after later).lookup (t.intern s).1 = .ok s) ∧
    (∀ s s' later, (t.intern s).1 = (((t.intern s).2.after later).intern s').1 ↔ s = s') ∧
    (∀ name, name.index < t.size ↔ ∃ s, t.find? s = some name) ∧
    (t.find? "" = some .empty ∧ t.lookup .empty = .ok "") ∧
    (∀ name s later, t.lookup name = .ok s → (t.after later).lookup name = .ok s) ∧
    (∀ s, t.find? s = if s ∈ known calls then some (t.intern s).1 else none) ∧
    t = initial.after (calls.filter (·.entered?.isSome)) ∧
    (∀ s, (t.intern s).2.size = t.size + if s ∈ known calls then 0 else 1) := by
  intro t
  have empty : t.lookup .empty = .ok "" := lookup_after (by rfl : initial.lookup .empty = .ok "")
  refine ⟨t.coherent, fun s later => lookup_after (lookup_intern t s), intern_inj calls,
    fun name => ?_, ⟨find?_eq_some_iff.2 (lookup_eq_ok.1 empty), empty⟩,
    fun name s later => lookup_after, fun s => find?_after calls, after_eq_filter initial calls,
    fun s => size_intern calls⟩
  exact ⟨fun lt => ⟨_, find?_eq_some_iff.2 (Array.getElem?_eq_getElem lt)⟩,
    fun ⟨_, found⟩ => (Array.getElem?_eq_some_iff.1 (find?_eq_some_iff.1 found)).1⟩

/-- Asked for before it was interned, a string is not entered; interned again, it keeps its name. -/
theorem names_bijective_repeated :
    (initial.after [.intern "a", .find "b", .intern "b", .intern "a"]).strings = #["", "a", "b"] ∧
      ((initial.after [.intern "a", .find "b", .intern "b", .intern "a"]).after
        [.intern "c"]).lookup ⟨2⟩ = .ok "b" := by
  have strings : (initial.after [.intern "a", .find "b", .intern "b", .intern "a"]).strings =
      #["", "a", "b"] := by decide +kernel
  obtain ⟨-, -, -, -, -, kept, -⟩ :=
    names_bijective [.intern "a", .find "b", .intern "b", .intern "a"]
  exact ⟨strings, kept ⟨2⟩ "b" _ (lookup_eq_ok.2 (by rw [strings]; rfl))⟩

end Codegen.NameTable
