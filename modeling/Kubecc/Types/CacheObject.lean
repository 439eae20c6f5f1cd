/-
**What the cache stores.**

The messages `CacheObject`, `CacheObjectMeta` and `CacheObjectManaged` of `pkg/types/types.proto`, and
the status errors with which the storage providers of `pkg/storage` fail. A nil pointer to a message is
`none`; a getter of the generated code reads a default through it.
-/

import Kubecc.Go.Strings

namespace Kubecc.Types

open Kubecc.Go

abbrev StorageLocation := Int32

/-- `types.Memory`, `types.Disk` and `types.S3`. -/
def StorageLocation.memory : StorageLocation := 1
def StorageLocation.disk : StorageLocation := 2
def StorageLocation.s3 : StorageLocation := 3

structure CacheObjectManaged where
  size : Int64
  timestamp : Int64
  score : Int64
  location : StorageLocation
deriving DecidableEq

/-- `types.CacheObjectMeta`. An empty map of tags and a nil one are the same here. -/
structure CacheObjectMeta where
  tags : List (GoString × GoString)
  expirationDate : Int64
  managedFields : Option CacheObjectManaged
deriving DecidableEq

/-- `&types.CacheObjectMeta{}`. -/
def CacheObjectMeta.empty : CacheObjectMeta := ⟨[], 0, none⟩

structure CacheObject where
  data : GoString
  metadata : Option CacheObjectMeta
deriving DecidableEq

namespace CacheObject

/-- The metadata, an empty one if there is none. -/
def getMetadata (object : CacheObject) : CacheObjectMeta := object.metadata.getD .empty

/-- `GetMetadata().GetExpirationDate()`. -/
def expirationDate (object : CacheObject) : Int64 := object.getMetadata.expirationDate

/-- `GetMetadata().GetManagedFields().GetSize()`. -/
def managedSize (object : CacheObject) : Int64 :=
  (object.getMetadata.managedFields.map CacheObjectManaged.size).getD 0

end CacheObject

/-- **The date has passed**, at a reading of the clock in nanoseconds since 1970. An object without a
date does not expire. -/
def CacheObjectMeta.expired (metadata : CacheObjectMeta) (now : ℕ) : Bool :=
  0 < metadata.expirationDate.toInt && metadata.expirationDate.toInt < (now : Int)

inductive Code
  | alreadyExists
  | notFound
  | internal
deriving DecidableEq

structure Status where
  code : Code
  message : GoString
deriving DecidableEq

end Kubecc.Types
