/-! Texts within texts. -/

set_option autoImplicit false

namespace RecordMerge.Text

def occursIn (part whole : List Char) : Bool :=
  match whole with
  | [] => part.isEmpty
  | _ :: rest => part.isPrefixOf whole || occursIn part rest

theorem occursIn_iff (part whole : List Char) : occursIn part whole = true ↔ part <:+: whole := by
  induction whole with
  | nil => simp [occursIn]
  | cons first rest tail => simp [occursIn, tail, List.infix_cons_iff]

end RecordMerge.Text
