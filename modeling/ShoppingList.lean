import ShoppingList.Agreement
import ShoppingList.Cells
import ShoppingList.Complete
import ShoppingList.Controllers
import ShoppingList.Deleting
import ShoppingList.Device
import ShoppingList.Documents
import ShoppingList.Effect
import ShoppingList.Firestore.Client
import ShoppingList.Firestore.Document
import ShoppingList.Firestore.Guarantees
import ShoppingList.Firestore.Handlers
import ShoppingList.Firestore.LevelDbKey
import ShoppingList.Firestore.LevelDbMutationQueue
import ShoppingList.Firestore.LevelDbQueueWrites
import ShoppingList.Firestore.LocalStore
import ShoppingList.Firestore.LocalView
import ShoppingList.Firestore.Mutation
import ShoppingList.Firestore.MutationQueue
import ShoppingList.Firestore.OrderedCode
import ShoppingList.Firestore.Pipeline
import ShoppingList.Firestore.SignedNumbers
import ShoppingList.Firestore.SignedReading
import ShoppingList.Firestore.StoreValid
import ShoppingList.Firestore.Tokens
import ShoppingList.Firestore.Transaction
import ShoppingList.Firestore.TransactionIterator
import ShoppingList.Firestore.Worker
import ShoppingList.Firestore.WorkerValid
import ShoppingList.Item
import ShoppingList.Lib.Codes
import ShoppingList.Lib.Collection
import ShoppingList.Lib.DispatchGroup
import ShoppingList.Lib.Ledger
import ShoppingList.Lib.Lists
import ShoppingList.Lib.Outbox
import ShoppingList.Lib.Pattern
import ShoppingList.Lib.Places
import ShoppingList.Lib.Runs
import ShoppingList.Lib.Separated
import ShoppingList.Lib.SortedMap
import ShoppingList.Lib.Table
import ShoppingList.Loading
import ShoppingList.Outcome
import ShoppingList.PictureLife
import ShoppingList.Pictures
import ShoppingList.Preview
import ShoppingList.Process
import ShoppingList.Rejected
import ShoppingList.Repository
import ShoppingList.Saving
import ShoppingList.Server
import ShoppingList.Sessions
import ShoppingList.Settings
import ShoppingList.Sharing
import ShoppingList.Signup
import ShoppingList.Tables
import ShoppingList.Texts
import ShoppingList.Uploads
import ShoppingList.Validation
import ShoppingList.World
