import BraceLisp.Text.CharClass
import BraceLisp.Text.Utf8

/-!
# Words, lines and margins

Trimming white space off a line, splitting text into words, and filling paragraphs between two
margins. White space is recognised by character, widths are measured in bytes, and stray bytes are
kept as they are.
-/

namespace BraceLisp.Layout

/-- Whether an item of a byte string is white space; a stray byte never is. -/
def isSpaceItem : Utf8.Item → Bool
  | .char c => CharClass.isSpace c
  | .stray _ => false

def joinItems (items : List Utf8.Item) : Bytes :=
  items.flatMap Utf8.Item.bytes

def trim (s : Bytes) : Bytes :=
  let left := (Utf8.items s).dropWhile isSpaceItem
  joinItems (left.reverse.dropWhile isSpaceItem).reverse

/-- Lists with an element put in front of the first of them. -/
def consFirst {α : Type} (x : α) : List (List α) → List (List α)
  | first :: others => (x :: first) :: others
  | [] => [[x]]

/-- The parts of a list between the elements that separate them; there is always at least one. -/
def splitWhere {α : Type} (isSeparator : α → Bool) : List α → List (List α)
  | [] => [[]]
  | x :: rest =>
      if isSeparator x then [] :: splitWhere isSeparator rest
      else consFirst x (splitWhere isSeparator rest)

/-- The words of a text: its longest runs without white space. -/
def words (s : Bytes) : List Bytes :=
  ((splitWhere isSpaceItem (Utf8.items s)).filter fun word => !word.isEmpty).map joinItems

def lineFeed : UInt8 := 0x0A

def space : UInt8 := 0x20

def parts (separator : UInt8) (s : Bytes) : List Bytes :=
  splitWhere (· == separator) s

def paragraphs (s : Bytes) : List Bytes :=
  parts lineFeed s

def separate (separator : Bytes) : List Bytes → Bytes
  | [] => []
  | [part] => part
  | part :: rest => part ++ separator ++ separate separator rest

/--
The words of a line that has `used` bytes already, and of the lines after it. A word that would make a line
longer than `width` starts the next one.
-/
def fillFrom (width : Int) : (used : Nat) → List Bytes → List (List Bytes)
  | _, [] => [[]]
  | used, word :: rest =>
      let longer := used + 1 + word.length
      if width < longer then [] :: consFirst word (fillFrom width word.length rest)
      else consFirst word (fillFrom width longer rest)

/-- The words of each line when lines are filled with words. The first word of a line always fits. -/
def fill (width : Int) : List Bytes → List (List Bytes)
  | [] => [[]]
  | word :: rest => consFirst word (fillFrom width word.length rest)

def lineOf (line : List Bytes) : Bytes :=
  separate [space] line

/-- A line behind its margin, with the line feed that ends it. -/
def indent (left : Nat) (line : Bytes) : Bytes :=
  List.replicate left space ++ line ++ [lineFeed]

def fillParagraphs (width : Int) (s : Bytes) : List Bytes :=
  (paragraphs s).flatMap fun paragraph => (fill width (words paragraph)).map lineOf

def wrap (left : Nat) (width : Int) (s : Bytes) : Bytes :=
  (fillParagraphs width s).flatMap (indent left)

/-- The width between two margins, computed with 64-bit words. -/
def widthBetween (left right : Int64) : Int :=
  (right - left).toInt

/-- A text filled between two margins, of which the left one must not be negative. -/
def wrap? (left right : Int64) (s : Bytes) : Option Bytes :=
  if left < 0 then none else some (wrap left.toInt.toNat (widthBetween left right) s)

end BraceLisp.Layout
