import Goka.Context
import Goka.Storage

/-!
# The group table on LevelDB

The methods of a partition table that a callback context uses, on the LevelDB storage. Reads are
refused until the table is running; writes are not.
-/

namespace Goka

structure GroupTable where
  state : PartitionStatus
  st : Storage

instance : TableStore GroupTable where
  get table key := do
    table.state.readyToRead
    return table.st.get key
  set table key value := (none, { table with st := table.st.set key value })
  delete table key := (none, { table with st := table.st.delete key })
  getOffset table defValue := table.st.getOffset defValue
  setOffset table offset := (none, { table with st := table.st.setOffset offset })

end Goka
