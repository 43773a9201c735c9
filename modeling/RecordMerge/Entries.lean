/-! Finite maps that remember insertion order, as lists of pairs. A key is written once;
writing it again replaces its item where it stands. -/

set_option autoImplicit false

namespace RecordMerge.Entries

variable {Key Item : Type} [BEq Key]

/-- Replace the item of an equal key in place, or append a new pair. -/
def put (entries : List (Key × Item)) (key : Key) (item : Item) : List (Key × Item) :=
  match entries with
  | [] => [(key, item)]
  | (name, kept) :: rest =>
    if name == key then (name, item) :: rest else (name, kept) :: put rest key item

/-- Write the pairs one after another, so that the last item of a key wins. -/
def putAll (entries extra : List (Key × Item)) : List (Key × Item) :=
  extra.foldl (fun written pair => put written pair.1 pair.2) entries

def ofPairs (pairs : List (Key × Item)) : List (Key × Item) :=
  putAll [] pairs

def get? (entries : List (Key × Item)) (key : Key) : Option Item :=
  match entries with
  | [] => none
  | (name, item) :: rest => if name == key then some item else get? rest key

@[simp] theorem get?_nil (key : Key) : get? ([] : List (Key × Item)) key = none := rfl

theorem get?_put_self [LawfulBEq Key] (entries : List (Key × Item)) (key : Key) (item : Item) :
    get? (put entries key item) key = some item := by
  induction entries with
  | nil => simp [put, get?]
  | cons pair rest tail =>
    obtain ⟨name, kept⟩ := pair
    by_cases same : name = key <;> simp [put, get?, same, tail]

theorem get?_put_of_ne [LawfulBEq Key] (entries : List (Key × Item)) {key other : Key}
    (item : Item) (differs : key ≠ other) :
    get? (put entries key item) other = get? entries other := by
  induction entries with
  | nil => simp [put, get?, differs]
  | cons pair rest tail =>
    obtain ⟨name, held⟩ := pair
    by_cases same : name = key
    · subst same
      simp [put, get?, differs]
    · have kept : (name == key) = false := by simp [same]
      by_cases found : name = other
      · subst found
        simp [put, get?, kept]
      · simp [put, get?, kept, found, tail]

/-- Writing a key keeps the order of the keys and adds at most the new one. -/
theorem map_fst_put [LawfulBEq Key] [DecidableEq Key] (entries : List (Key × Item)) (key : Key)
    (item : Item) :
    (put entries key item).map Prod.fst =
      if key ∈ entries.map Prod.fst then entries.map Prod.fst
      else entries.map Prod.fst ++ [key] := by
  induction entries with
  | nil => simp [put]
  | cons pair rest tail =>
    obtain ⟨name, kept⟩ := pair
    by_cases same : name = key
    · simp [put, same]
    · have other : key ≠ name := fun equal => same equal.symm
      by_cases known : ∃ found, (key, found) ∈ rest <;> simp_all [put]

end RecordMerge.Entries
