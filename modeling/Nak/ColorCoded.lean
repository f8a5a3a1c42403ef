import Nak.Library.Quoting
import Nak.Library.Slices
import Nak.Library.Utf8
import Nak.Protocol

/-! How recorded bytes are displayed: printable bytes as they are, the others as hexadecimal
digits in red. -/
namespace Nak.Recorder.ColorCoded
open Library

def printable (byte : UInt8) : Bool := byte ≥ 0x20 && byte ≤ 0x7e

def unprintable (byte : UInt8) : Bool := byte < 0x20 || byte > 0x7e

def hex (byte : UInt8) : String := .ofList [Nat.digitChar (byte.toNat / 16),Nat.digitChar (byte.toNat % 16)]

/-- The shared index, what is written to the formatter and the indexes that were passed. -/
structure Formatter where
  i : Nat
  text : String
  visited : List Nat
  deriving DecidableEq, Repr

def Formatter.write (f : Formatter) (text : String) : Formatter := { f with text := f.text ++ text }

/-- An inner loop: it passes the bytes of a run, and writes something for each. -/
def runLoop (data : Bytes) (test : UInt8 → Bool) (put : UInt8 → String) : Nat → Formatter → Outcome Formatter
  | 0, _ => .error .exhausted
  | fuel + 1, f =>
    if f.i < data.length then do
      let byte ← itemAt data f.i
      if test byte then
        runLoop data test put fuel { f.write (put byte) with i := f.i + 1,visited := f.visited ++ [f.i] }
      else pure f
    else pure f

def printableLoop (data : Bytes) (f : Formatter) : Outcome Formatter :=
  runLoop data printable (fun _ => "") (data.length - f.i + 1) f

def unprintableLoop (data : Bytes) (f : Formatter) : Outcome Formatter :=
  runLoop data unprintable hex (data.length - f.i + 1) f

section
variable (red reset : String)

def fmtLoop (data : Bytes) : Nat → Formatter → Outcome Formatter
  | 0, _ => .error .exhausted
  | fuel + 1, f =>
    if f.i < data.length then do
      let byte ← itemAt data f.i
      if printable byte then do
        let start := f.i
        let f ← printableLoop data f
        let run ← slice data start f.i
        let text ← Outcome.unwrap (String.fromUTF8? ⟨run.toArray⟩)
        fmtLoop data fuel (f.write text)
      else do
        let f ← unprintableLoop data (f.write red)
        fmtLoop data fuel (f.write reset)
    else pure f

def fmt (data : Bytes) : Outcome Formatter := fmtLoop red reset data (data.length + 1) ⟨0,"",[]⟩

def escape : Char := .ofNat 0x1b

def character (byte : UInt8) : Char := .ofNat byte.toNat

def digit (char : Char) : Nat := if char.toNat < 97 then char.toNat - 48 else char.toNat - 87

theorem below (holds : UInt8 → Bool) (all : (List.range 256).all (fun n => holds n.toUInt8) = true) (byte : UInt8) :
    holds byte = true := by
  have found := List.all_eq_true.mp all byte.toNat (List.mem_range.mpr byte.toNat_lt)
  simpa using found

def quoting : Quoting UInt8 Char where
  plain := printable
  shown := character
  read char := char.toNat.toUInt8
  code byte := (Nat.digitChar (byte.toNat / 16),Nat.digitChar (byte.toNat % 16))
  decode first second := (digit first * 16 + digit second).toUInt8
  mark := escape
  opening := red.toList.tail
  closing := reset.toList.tail
  read_shown byte _ := by
    simpa using below (fun byte => (character byte).toNat.toUInt8 = byte) (by decide +kernel) byte
  decode_code byte := by
    simpa using below (fun byte => (digit (Nat.digitChar (byte.toNat / 16)) * 16 +
      digit (Nat.digitChar (byte.toNat % 16))).toUInt8 = byte) (by decide +kernel) byte
  shown_ne byte plain := by
    have other := below (fun byte => !printable byte || character byte ≠ escape) (by decide +kernel) byte
    simpa [plain] using other
  code_ne byte := by
    simpa using below (fun byte => Nat.digitChar (byte.toNat / 16) ≠ escape) (by decide +kernel) byte

theorem unprintable_not (byte : UInt8) : unprintable byte = !printable byte := by
  simpa using below (fun byte => unprintable byte = !printable byte) (by decide +kernel) byte

theorem runLoop_passes {test : UInt8 → Bool} {put : UInt8 → String} {fuel : Nat} {before run more : Bytes}
    {f : Formatter}
    (place : f.i = before.length) (enough : run.length < fuel) (passes : ∀ byte ∈ run, test byte = true)
    (stops : ∀ byte ∈ more.head?, test byte = false) :
    runLoop (before ++ (run ++ more)) test put fuel f =
      .ok ⟨f.i + run.length,f.text ++ .ofList (run.flatMap fun byte => (put byte).toList),
        f.visited ++ List.range' f.i run.length⟩ := by
  induction run generalizing before f fuel with
  | nil =>
    obtain ⟨fuel,rfl⟩ := Nat.exists_eq_succ_of_ne_zero (Nat.ne_zero_of_lt enough)
    rw [List.nil_append,runLoop]
    cases more with
    | nil =>
      rw [if_neg (by simp [place])]
      simp
    | cons byte more =>
      have stop : test byte = false := stops byte rfl
      rw [place,itemAt_append]
      simp [stop,← place]
  | cons byte run ih =>
    obtain ⟨fuel,rfl⟩ := Nat.exists_eq_succ_of_ne_zero (Nat.ne_zero_of_lt enough)
    obtain ⟨pass,passes⟩ := List.forall_mem_cons.mp passes
    rw [List.length_cons] at enough
    have later := @ih fuel (before ++ [byte]) { f.write (put byte) with i := f.i + 1,visited := f.visited ++ [f.i] }
      (by simp [place]) (by omega) passes
    rw [List.cons_append,runLoop,if_pos (by simp [place]),place,itemAt_append,Outcome.ok_bind,if_pos pass,← place]
    simp only [List.append_assoc,List.singleton_append] at later
    rw [later]
    simp [Formatter.write,List.range'_succ,String.append_assoc,Nat.add_comm,Nat.add_left_comm]

theorem utf8_shown {run : Bytes} (plain : ∀ byte ∈ run, printable byte = true) : utf8 (run.map character) = run := by
  induction run with
  | nil => simp
  | cons byte run ih =>
    obtain ⟨first,plain⟩ := List.forall_mem_cons.mp plain
    have ascii := below (fun byte => !printable byte ||
      (decide (Ascii (character byte)) && (character byte).val.toUInt8 = byte)) (by decide +kernel) byte
    simp only [first,Bool.not_true,Bool.false_or,Bool.and_eq_true,decide_eq_true_eq] at ascii
    rw [List.map_cons,utf8_cons,encode_ascii ascii.1,ascii.2,ih plain,List.singleton_append]

theorem run_splits {test : UInt8 → Bool} {byte : UInt8} (rest : Bytes) (holds : test byte = true) :
    ∃ run more, byte :: rest = byte :: run ++ more ∧ (∀ item ∈ byte :: run, test item = true) ∧
      ∀ item ∈ more.head?, test item = false := by
  refine ⟨rest.takeWhile test,rest.dropWhile test,by simp,?_,?_⟩
  · rw [List.forall_mem_cons]
    exact ⟨holds,List.all_eq_true.mp List.all_takeWhile⟩
  · intro item first
    have stop := List.head?_dropWhile_not test rest
    rw [first] at stop
    simpa using stop

section Runs
variable {before run more : Bytes} {f : Formatter}

theorem run_fits (more : Bytes) (place : f.i = before.length) :
    run.length < (before ++ (run ++ more)).length - f.i + 1 := by
  rw [place,List.length_append,List.length_append]
  omega

theorem printableLoop_passes (place : f.i = before.length) (plain : ∀ byte ∈ run, printable byte = true)
    (stops : ∀ byte ∈ more.head?, printable byte = false) :
    printableLoop (before ++ (run ++ more)) f =
      .ok ⟨f.i + run.length,f.text,f.visited ++ List.range' f.i run.length⟩ := by
  rw [printableLoop,runLoop_passes place (run_fits more place) plain stops]
  simp

theorem unprintableLoop_passes (place : f.i = before.length) (coded : ∀ byte ∈ run, printable byte = false)
    (stops : ∀ byte ∈ more.head?, printable byte = true) :
    unprintableLoop (before ++ (run ++ more)) f =
      .ok ⟨f.i + run.length,f.text ++ .ofList (run.flatMap fun byte => (hex byte).toList),
        f.visited ++ List.range' f.i run.length⟩ := by
  rw [unprintableLoop,runLoop_passes place (run_fits more place)]
  · simpa [unprintable_not] using coded
  · simpa [unprintable_not] using stops

end Runs

theorem starts {text : String} (first : text.toList.head? = some escape) :
    text.toList = escape :: text.toList.tail := by
  obtain ⟨rest,shape⟩ := List.head?_eq_some_iff.mp first
  simp [shape]

/-- The loops pass the rest of the bytes once each, in order, and write the text of them. -/
theorem fmtLoop_writes (opens : red.toList.head? = some escape) (closes : reset.toList.head? = some escape)
    {fuel : Nat} (before rest : Bytes) (f : Formatter) (place : f.i = before.length) (enough : rest.length < fuel) :
    ∃ text, fmtLoop red reset (before ++ rest) fuel f =
        .ok ⟨f.i + rest.length,text,f.visited ++ List.range' f.i rest.length⟩ ∧
      text.toList = f.text.toList ++ (quoting red reset).quote false rest := by
  induction fuel generalizing before rest f with
  | zero => omega
  | succ fuel ih =>
    cases rest with
    | nil =>
      rw [fmtLoop,if_neg (by simp [place])]
      exact ⟨f.text,by simp,by simp [Quoting.quote]⟩
    | cons byte rest =>
      rw [fmtLoop,if_pos (by simp [place]),place,itemAt_append,Outcome.ok_bind,← place]
      cases plain : printable byte with
      | true =>
        obtain ⟨run,more,shape,passes,stops⟩ := run_splits rest plain
        have size := congrArg List.length shape
        simp only [List.length_append,List.length_cons] at enough size
        have decoded := fromUTF8_utf8 ((byte :: run).map character)
        rw [utf8_shown passes] at decoded
        obtain ⟨text,goes,written⟩ := ih (before ++ byte :: run) more
          (Formatter.write ⟨f.i + (byte :: run).length,f.text,f.visited ++ List.range' f.i (byte :: run).length⟩
            (.ofList ((byte :: run).map character)))
          (by simp [Formatter.write,place]) (by omega)
        refine ⟨text,?_,?_⟩
        · rw [shape,if_pos rfl,printableLoop_passes place passes stops,Outcome.ok_bind,place,slice_append,
            Outcome.ok_bind,
            decoded,Outcome.unwrap,Outcome.ok_bind,← place,← List.append_assoc before,goes]
          simp only [Formatter.write,List.length_append,← List.range'_append_1,Nat.add_assoc,List.append_assoc]
        · rw [written,shape,Quoting.quote_plain passes]
          simp [Formatter.write,quoting]
      | false =>
        obtain ⟨run,more,shape,passes,stops⟩ := @run_splits (fun byte => !printable byte) byte rest (by simp [plain])
        simp only [Bool.not_eq_true',Bool.not_eq_false'] at passes stops
        have size := congrArg List.length shape
        simp only [List.length_append,List.length_cons] at enough size
        obtain ⟨text,goes,written⟩ := ih (before ++ byte :: run) more
          (Formatter.write ⟨f.i + (byte :: run).length,
            (f.write red).text ++ .ofList ((byte :: run).flatMap fun byte => (hex byte).toList),
            f.visited ++ List.range' f.i (byte :: run).length⟩ reset)
          (by simp [Formatter.write,place]) (by omega)
        refine ⟨text,?_,?_⟩
        · rw [shape,if_neg (by simp),unprintableLoop_passes (by exact place) passes stops,Outcome.ok_bind,
            ← List.append_assoc before]
          refine Eq.trans goes ?_
          simp only [Formatter.write,List.length_append,← List.range'_append_1,Nat.add_assoc,List.append_assoc]
        · rw [written,shape,List.cons_append,Quoting.quote_opens (by exact plain),← List.cons_append,
            Quoting.quote_coded (by exact passes),Quoting.quote_closes (by exact stops)]
          simp only [Formatter.write,quoting,hex,String.toList_append,String.toList_ofList,← starts opens,
            ← starts closes]
          simp [List.append_assoc]

def recover (text : String) : Bytes := (quoting red reset).unquote false text.toList

variable {red reset}

theorem fmt_writes (opens : red.toList.head? = some escape) (closes : reset.toList.head? = some escape) (data : Bytes) :
    ∃ text, fmt red reset data = .ok ⟨data.length,text,List.range data.length⟩ ∧ recover red reset text = data := by
  obtain ⟨text,written,shown⟩ := fmtLoop_writes red reset opens closes [] data ⟨0,"",[]⟩ rfl (Nat.lt_succ_self _)
  refine ⟨text,?_,?_⟩
  · rw [fmt]
    simpa [List.range_eq_range'] using written
  · rw [recover,shown]
    exact Quoting.unquote_quote false data

/-- The display ends, passes every byte once and shows different bytes as different texts. -/
theorem display_recovers (red reset : String) (opens : red.toList.head? = some escape)
    (closes : reset.toList.head? = some escape) :
    (∀ data, ∃ text, fmt red reset data = .ok ⟨data.length,text,List.range data.length⟩ ∧
      recover red reset text = data) ∧
    ∀ first second shown other, fmt red reset first = .ok shown → fmt red reset second = .ok other →
      first ≠ second → shown.text ≠ other.text := by
  refine ⟨fmt_writes opens closes,?_⟩
  intro first second shown other displayed displayed' different same
  obtain ⟨text,written,recovered⟩ := fmt_writes opens closes first
  obtain ⟨text',written',recovered'⟩ := fmt_writes opens closes second
  obtain rfl : shown = ⟨first.length,text,List.range first.length⟩ := by simpa [displayed] using written
  obtain rfl : other = ⟨second.length,text',List.range second.length⟩ := by simpa [displayed'] using written'
  apply different
  rw [← recovered,← recovered']
  exact congrArg _ same

/-- The escape sequences of termion. -/
theorem display_recovers_termion :
    (∀ data, ∃ text, fmt "\x1b[38;5;1m" "\x1b[39m" data = .ok ⟨data.length,text,List.range data.length⟩ ∧
      recover "\x1b[38;5;1m" "\x1b[39m" text = data) ∧
    ∀ first second shown other, fmt "\x1b[38;5;1m" "\x1b[39m" first = .ok shown →
      fmt "\x1b[38;5;1m" "\x1b[39m" second = .ok other → first ≠ second → shown.text ≠ other.text :=
  display_recovers _ _ (by decide +kernel) (by decide +kernel)

example : fmt "<" ">" [104,105,27,200] = .ok ⟨4,"hi<1bc8>",[0,1,2,3]⟩ := by decide +kernel

end
end Nak.Recorder.ColorCoded
