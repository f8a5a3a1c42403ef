import Mathlib.Data.List.Basic

/-! Texts in which each run of items that cannot stand as they are stands coded, between an
opening and a closing text. Both begin with a mark, which begins nothing else. -/
namespace Nak.Library
variable {α β : Type}

structure Quoting (α β : Type) where
  plain : α → Bool
  shown : α → β
  read : β → α
  code : α → β × β
  decode : β → β → α
  mark : β
  opening : List β
  closing : List β
  read_shown : ∀ item, plain item = true → read (shown item) = item
  decode_code : ∀ item, decode (code item).1 (code item).2 = item
  shown_ne : ∀ item, plain item = true → shown item ≠ mark
  code_ne : ∀ item, (code item).1 ≠ mark

namespace Quoting
variable (quoting : Quoting α β)

/-- The text of some items, from outside or from inside of a coded run. -/
def quote : Bool → List α → List β
  | false, [] => []
  | true, [] => quoting.mark :: quoting.closing
  | false, item :: items =>
    if quoting.plain item then quoting.shown item :: quote false items
    else quoting.mark :: quoting.opening ++ (quoting.code item).1 :: (quoting.code item).2 :: quote true items
  | true, item :: items =>
    if quoting.plain item then quoting.mark :: quoting.closing ++ quoting.shown item :: quote false items
    else (quoting.code item).1 :: (quoting.code item).2 :: quote true items

def unquote [DecidableEq β] : Bool → List β → List α
  | _, [] => []
  | false, first :: text =>
    if first = quoting.mark then unquote true (text.drop quoting.opening.length)
    else quoting.read first :: unquote false text
  | true, first :: text =>
    if first = quoting.mark then unquote false (text.drop quoting.closing.length)
    else (text.head?.map (quoting.decode first)).toList ++ unquote true (text.drop 1)
termination_by _ text => text.length
decreasing_by all_goals simp; try omega

variable {quoting}

theorem unquote_quote [DecidableEq β] (inside : Bool) (items : List α) :
    quoting.unquote inside (quoting.quote inside items) = items := by
  induction items generalizing inside with
  | nil =>
    cases inside with
    | false => simp [quote,unquote]
    | true => simp [quote,unquote]
  | cons item items ih =>
    cases plain : quoting.plain item with
    | false =>
      cases inside with
      | false => simp [quote,unquote,plain,quoting.code_ne,quoting.decode_code,ih]
      | true => simp [quote,unquote,plain,quoting.code_ne,quoting.decode_code,ih]
    | true =>
      have shown := quoting.shown_ne item plain
      have read := quoting.read_shown item plain
      cases inside with
      | false => simp [quote,unquote,plain,shown,read,ih]
      | true => simp [quote,unquote,plain,shown,read,ih]

theorem quote_plain {run : List α} (plain : ∀ item ∈ run, quoting.plain item = true) (items : List α) :
    quoting.quote false (run ++ items) = run.map quoting.shown ++ quoting.quote false items := by
  induction run with
  | nil => simp
  | cons item run ih =>
    obtain ⟨first,plain⟩ := List.forall_mem_cons.mp plain
    simp [quote,first,ih plain]

theorem quote_coded {run : List α} (coded : ∀ item ∈ run, quoting.plain item = false) (items : List α) :
    quoting.quote true (run ++ items) =
      (run.flatMap fun item => [(quoting.code item).1,(quoting.code item).2]) ++ quoting.quote true items := by
  induction run with
  | nil => simp
  | cons item run ih =>
    obtain ⟨first,coded⟩ := List.forall_mem_cons.mp coded
    simp [quote,first,ih coded]

theorem quote_opens {item : α} (coded : quoting.plain item = false) (items : List α) :
    quoting.quote false (item :: items) = quoting.mark :: quoting.opening ++ quoting.quote true (item :: items) := by
  simp [quote,coded]

/-- A coded run is closed where the items end and before an item that stands as it is. -/
theorem quote_closes {items : List α} (ends : ∀ item ∈ items.head?, quoting.plain item = true) :
    quoting.quote true items = quoting.mark :: quoting.closing ++ quoting.quote false items := by
  cases items with
  | nil => simp [quote]
  | cons item items =>
    have plain : quoting.plain item = true := ends item rfl
    simp [quote,plain]

end Quoting
end Nak.Library
