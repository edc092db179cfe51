import Delimited.Conversion.TableStore
import Delimited.Table.Number

/-!
# What is around a conversion

## Main definitions

* `Environment`: what a conversion is given besides its settings.
-/

namespace Delimited

/-- What a conversion is given besides its settings. -/
structure Environment where
  /-- The date and time. -/
  now : String
  /-- What reads cells as numbers. -/
  numbers : NumberReader
  /-- What stores tables in files. -/
  tables : TableStore

end Delimited
