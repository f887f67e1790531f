import ApiListing.Calendar
import ApiListing.Document.Walk

namespace ApiListing.Filter

def compileDate (date : Date) : Filter where
  State := Unit
  initial := ()
  prepare := Document.setMetaString "date" (String.ofList date.text)
  action := Action.keep

end ApiListing.Filter
