import GrammarTidy.Byte

namespace GrammarTidy

/-! A text is cut into pieces at a mark: a path at its slashes, a message at its
line breaks. There is always one piece more than there are marks, and pieces can
be empty. -/

def cutChars (mark : Char) : List Char → List (List Char)
  | [] => [[]]
  | char :: rest =>
      if char = mark then
        [] :: cutChars mark rest
      else
        match cutChars mark rest with
        | [] => [[char]]
        | first :: others => (char :: first) :: others

def cut (mark : Char) (text : String) : List String :=
  (cutChars mark text.toList).map String.ofList

example : cutChars '/' ['a', '/'] = [['a'], []] := rfl

namespace Command

/-! What a run needs of the system it runs on. A run is written against these
few operations, so that it can be carried out on real files or on files in
memory. -/

structure SystemError where
  code : Nat
  reason : String
deriving DecidableEq, Repr

namespace SystemError

def text (error : SystemError) : String :=
  s!"{error.reason} (os error {error.code})"

def notFound : SystemError := { code := 2, reason := "No such file or directory" }
def notFolder : SystemError := { code := 20, reason := "Not a directory" }
def isFolder : SystemError := { code := 21, reason := "Is a directory" }
def noSpace : SystemError := { code := 28, reason := "No space left on device" }
def nameTooLong : SystemError := { code := 36, reason := "File name too long" }

end SystemError

inductive LoadError where
  | cannotOpen (cause : SystemError)
  | cannotRead (cause : SystemError)
deriving DecidableEq, Repr

/-- A file in memory, with the size that the system announced for it. -/
structure Loaded where
  announced : Nat
  contents : Bytes
deriving DecidableEq, Repr

structure Host (m : Type → Type) where
  load : String → ExceptT LoadError m Loaded
  /-- Make a file, or empty the one that is there, and get a way to add to it. -/
  create : String → ExceptT SystemError m (Bytes → ExceptT SystemError m Unit)
  print : String → m Unit
  /-- Write a text to the standard error output, and end its line. -/
  report : String → m Unit

end Command

end GrammarTidy
