/-!
# Listings

Text of nested values in two styles: all on one line, or one member per line, each line of a
member indented by four blanks and each member closed by a comma. A group without members is its
two brackets in either style.
-/

namespace ArenaHash

/-- What a listing shows: a text, a key with its value, or members between brackets. `pad` stands
next to the brackets on one line. -/
inductive Listing where
  | atom (text : String)
  | entry (key value : Listing)
  | group (opening pad closing : String) (members : List Listing)

/-- Puts four blanks in front of every line of a text. -/
def indentLines (text : String) : String :=
  let step := fun (out, atStart) c =>
    (if atStart then (out ++ "    ").push c else out.push c, c == '\n')
  (text.toList.foldl step ("", true)).1

example : indentLines "(\n    k,\n)" = "    (\n        k,\n    )" := by decide +kernel

namespace Listing

def tuple (members : List Listing) : Listing := group "(" "" ")" members

def bracketed (members : List Listing) : Listing := group "[" "" "]" members

def braced (members : List Listing) : Listing := group "\x7b" "" "\x7d" members

/-- A record with its name and fields. -/
def record (name : String) (fields : List (String × String)) : Listing :=
  group (name ++ " \x7b") " " "\x7d" (fields.map fun (field, value) => entry (atom field) (atom value))

mutual

/-- The text in one line, or over several if `pretty`. -/
def render (pretty : Bool) : Listing → String
  | atom text => text
  | entry key value => render pretty key ++ ": " ++ render pretty value
  | group opening pad closing members =>
    let texts := renderAll pretty members
    if texts.isEmpty then opening ++ closing
    else if pretty then
      opening ++ "\n" ++ String.join (texts.map fun text => indentLines (text ++ ",\n")) ++ closing
    else opening ++ pad ++ ", ".intercalate texts ++ pad ++ closing

def renderAll (pretty : Bool) : List Listing → List String
  | [] => []
  | member :: rest => render pretty member :: renderAll pretty rest

end

end Listing

end ArenaHash
