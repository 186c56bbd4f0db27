import Mathlib.Data.List.Basic

/- The parts of bash a launcher script rests on: the getopts builtin, word
   splitting and the star of file name patterns, over texts as character lists.
   Quoting, expansion and job control are outside this library. -/
set_option autoImplicit false

namespace AppFit.Shell

abbrev Text := List Char

inductive OptEvent where
  | flag (letter : Char)
  | value (letter : Char) (optarg : Text)
  | invalid
deriving DecidableEq

-- none: the letter is not in the option string; some true: it is followed by ':'.
def declared : Text → Char → Option Bool
  | [], _ => none
  | option :: rest, letter =>
      if letter = option ∧ option ≠ ':' then some (rest.head? == some ':') else declared rest letter

-- The letters of one option word. A letter that wants a value takes the rest of
-- the word; when nothing is left the letter is handed back to take the next word.
def scanWord (optstring : Text) : Text → List OptEvent × Option Char
  | [] => ([], none)
  | letter :: rest =>
      match declared optstring letter with
      | none => (.invalid :: (scanWord optstring rest).1, (scanWord optstring rest).2)
      | some false => (.flag letter :: (scanWord optstring rest).1, (scanWord optstring rest).2)
      | some true => if rest = [] then ([], some letter) else ([.value letter rest], none)

def optionLetters : Text → Option Text
  | '-' :: letter :: letters => if letter = '-' ∧ letters = [] then none else some (letter :: letters)
  | _ => none

def getopts (optstring : Text) : List Text → List OptEvent
  | [] => []
  | word :: words =>
      match optionLetters word with
      | none => []
      | some letters =>
          match (scanWord optstring letters).2, words with
          | none, words => (scanWord optstring letters).1 ++ getopts optstring words
          | some _, [] => (scanWord optstring letters).1 ++ [.invalid]
          | some letter, optarg :: words =>
              (scanWord optstring letters).1 ++ .value letter optarg :: getopts optstring words

theorem getopts_inline_value (optstring : Text) (letter : Char) (optarg : Text) (words : List Text)
    (takes : declared optstring letter = some true) (nonempty : optarg ≠ []) :
    getopts optstring (('-' :: letter :: optarg) :: words) = .value letter optarg :: getopts optstring words := by
  simp [getopts, optionLetters, scanWord, takes, nonempty]

theorem getopts_next_value (optstring : Text) (letter : Char) (optarg : Text) (words : List Text)
    (takes : declared optstring letter = some true) (notDash : letter ≠ '-') :
    getopts optstring (['-', letter] :: optarg :: words) = .value letter optarg :: getopts optstring words := by
  simp [getopts, optionLetters, scanWord, takes, notDash]

theorem getopts_flag (optstring : Text) (letter : Char) (words : List Text)
    (plain : declared optstring letter = some false) (notDash : letter ≠ '-') :
    getopts optstring (['-', letter] :: words) = .flag letter :: getopts optstring words := by
  simp [getopts, optionLetters, scanWord, plain, notDash]

-- Unquoted expansion: split at blanks, empty words dropped.
def splitWords (text : Text) : List Text := (text.splitOn ' ').filter (· ≠ [])

def starMatch (pre post name : Text) : Bool :=
  pre.isPrefixOf name && post.isSuffixOf name && decide (pre.length + post.length ≤ name.length)

end AppFit.Shell
