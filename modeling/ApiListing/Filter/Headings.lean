import ApiListing.Document.Inline
import ApiListing.Document.Walk

namespace ApiListing.Filter

/-- Makes a header of level one the title in the metadata and moves the other headers up one level.
Of several titles the last one stays. -/
def shiftHeadings : Filter where
  State := Unit
  initial := ()
  action
    | .header level attr inlines => do
      if level ≤ 1 then
        modify fun (s, d) => (s, d.setMetaString "title" (Inline.stringify inlines))
        return []
      else return [.header (level - 1) attr inlines]
    | b => return [b]

def tocTitle : String := "Table of Contents"

/-- Deletes the header of a table of contents and the lists up to the next header. The state tells
whether the last header was that of a table of contents. -/
def removeToc : Filter where
  State := Bool
  initial := false
  action b := do
    let (inToc, d) ← get
    match b with
    | .header level attr inlines =>
      let opens := !inToc && Inline.stringify inlines = tocTitle
      set (opens, d)
      return if opens then [] else [.header level attr inlines]
    | b => return if inToc && b.isList then [] else [b]

end ApiListing.Filter
