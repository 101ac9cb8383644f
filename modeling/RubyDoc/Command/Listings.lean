import RubyDoc.Command.Session
import RubyDoc.Syntax.Listing

/-!
# A grammar from listings

The syntax tree of a text is read from a listing beside it: that of the file `a.rb` is in
`a.rb.tree`, that of the standard input in `(stdin).tree`.  A text without a listing has no tree.
-/

namespace RubyDoc.Command

/-- The place of the listing for the text at a place. -/
def listingPlace (place : Location) : Location :=
  place.dropLast ++ [place.getLast?.getD [] ++ ".tree"]

/-- The places where a text stands. -/
def placesOf (files : FileSystem) (input text : Text) : List Location :=
  (if text = input.unifyNewlines then [[inputName]] else []) ++
    (files.files.filter fun file => file.2 = text).map Prod.fst

/-- The grammar that listings among the files make up. -/
def listedGrammar (files : FileSystem) (input : Text) : Syntax.Grammar := fun text =>
  (placesOf files input text).findSome? fun place => do
    let listing ← files.file? (listingPlace place)
    Syntax.Listing.read? text (← listing.toString?)

end RubyDoc.Command
