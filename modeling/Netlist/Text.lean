/-!
# Text

Every statement of a netlist is a text, and a text is its list of characters.
Positions in a text are counted in bytes of its UTF-8 form, letter case is
folded for the letters `A` to `Z` only, and texts are ordered by code point,
which is also the order of their UTF-8 bytes.
-/

namespace Netlist

abbrev Text := List Char

instance : Coe String Text := ⟨String.toList⟩

namespace Text

/-- The length of the UTF-8 form. -/
def byteSize : Text → Nat
  | [] => 0
  | first :: rest => first.utf8Size + byteSize rest

/-- The longest initial part of at most `count` bytes. -/
def takeBytes : Nat → Text → Text
  | _, [] => []
  | count, first :: rest =>
      if first.utf8Size ≤ count then
        first :: takeBytes (count - first.utf8Size) rest
      else []

/-- What `takeBytes` leaves. -/
def dropBytes : Nat → Text → Text
  | _, [] => []
  | count, first :: rest =>
      if first.utf8Size ≤ count then dropBytes (count - first.utf8Size) rest
      else first :: rest

@[simp] theorem byteSize_nil : byteSize [] = 0 := rfl

@[simp] theorem byteSize_cons (first : Char) (rest : Text) :
    byteSize (first :: rest) = first.utf8Size + byteSize rest := rfl

@[simp] theorem byteSize_append (front back : Text) :
    byteSize (front ++ back) = byteSize front + byteSize back := by
  induction front with
  | nil => simp
  | cons first rest ih => simp [ih, Nat.add_assoc]

theorem takeBytes_append_dropBytes (count : Nat) (text : Text) :
    takeBytes count text ++ dropBytes count text = text := by
  induction text generalizing count with
  | nil => rfl
  | cons first rest ih =>
      by_cases fits : first.utf8Size ≤ count
      · simp [takeBytes, dropBytes, fits, ih]
      · simp [takeBytes, dropBytes, fits]

@[simp] theorem takeBytes_zero (text : Text) : takeBytes 0 text = [] := by
  cases text with
  | nil => rfl
  | cons first rest =>
      have := first.utf8Size_pos
      simp [takeBytes]; omega

@[simp] theorem dropBytes_zero (text : Text) : dropBytes 0 text = text := by
  simpa using takeBytes_append_dropBytes 0 text

/-- A cut at the byte size of an initial part separates exactly that part. -/
@[simp] theorem takeBytes_byteSize_append (front back : Text) :
    takeBytes (byteSize front) (front ++ back) = front := by
  induction front with
  | nil => simp
  | cons first rest ih => simp [takeBytes, ih]

@[simp] theorem dropBytes_byteSize_append (front back : Text) :
    dropBytes (byteSize front) (front ++ back) = back := by
  induction front with
  | nil => simp
  | cons first rest ih => simp [dropBytes, ih]

/-- Puts `A` to `Z` in lower case and keeps every other character. -/
def lower (text : Text) : Text := text.map Char.toLower

/-- Equality up to the case of `A` to `Z`, character by character. -/
def sameLetters : Text → Text → Bool
  | [], [] => true
  | a :: first, b :: second => a.toLower == b.toLower && sameLetters first second
  | _, _ => false

theorem sameLetters_iff (first second : Text) :
    sameLetters first second = true ↔ lower first = lower second := by
  induction first generalizing second with
  | nil => cases second <;> simp [sameLetters, lower]
  | cons a first ih =>
      cases second with
      | nil => simp [sameLetters, lower]
      | cons b second =>
          have step := ih second
          simp only [lower] at step
          simp [sameLetters, lower, step]

/-- The text begins with `lead`, up to letter case. -/
def opensWith : (lead text : Text) → Bool
  | [], _ => true
  | _ :: _, [] => false
  | a :: lead, b :: text => a.toLower == b.toLower && opensWith lead text

/-- Ascending by code point; equal texts keep their order. -/
def sort (texts : List Text) : List Text :=
  texts.mergeSort fun first second => !decide (second < first)

/-- Pairs in ascending order of their names. -/
def sortByName {α : Type} (pairs : List (Text × α)) : List (Text × α) :=
  pairs.mergeSort fun first second => !decide (second.1 < first.1)

/-- The texts in a row with `between` set between neighbours. -/
def join (between : Text) : List Text → Text
  | [] => []
  | [only] => only
  | first :: rest => first ++ between ++ join between rest

/-- Decimal digits of a number. -/
def ofNat (n : Nat) : Text := Nat.toDigits 10 n

/-- The two sides of the first `mark`, if there is one. -/
def cutAt (mark : Char) : Text → Option (Text × Text)
  | [] => none
  | first :: rest =>
      if first = mark then some ([], rest)
      else (cutAt mark rest).map fun (front, back) => (first :: front, back)

end Text

end Netlist
