import Kanban.Json.Reader
import Kanban.Operation

/-!
# Bodies of requests

The readers of what requests carry, field by field in the order in which a list gives them.
-/

namespace Kanban

open Json.Reader Json.Reader.Slot

def NewUser.reader : Json.Reader NewUser :=
  record {} [
    required "username" text fun new username => { new with username },
    defaulted "name" text fun new name => { new with name }]

def NewProject.reader : Json.Reader NewProject :=
  record {} [
    required "title" text fun new title => { new with title },
    defaulted "description" text fun new description => { new with description }]

def ProjectUpdate.reader : Json.Reader ProjectUpdate :=
  record {} [
    optional "title" text fun patch title => { patch with title },
    optional "description" text fun patch description => { patch with description },
    optional "default_bucket_id" int64 fun patch defaultBucketId =>
      { patch with defaultBucketId },
    optional "done_bucket_id" int64 fun patch doneBucketId => { patch with doneBucketId }]

def NewShare.reader : Json.Reader NewShare :=
  record {} [
    required "user_id" int64 fun new userId => { new with userId },
    defaulted "right" int64 fun new right => { new with right }]

def NewBucket.reader : Json.Reader NewBucket :=
  record {} [
    required "title" text fun new title => { new with title },
    defaulted "limit" int64 fun new limit => { new with limit },
    defaulted "position" double fun new position => { new with position }]

def BucketUpdate.reader : Json.Reader BucketUpdate :=
  record {} [
    optional "title" text fun patch title => { patch with title },
    optional "limit" int64 fun patch limit => { patch with limit },
    optional "position" double fun patch position => { patch with position }]

def NewTask.reader : Json.Reader NewTask :=
  record {} [
    required "title" text fun new title => { new with title },
    optional "description" text fun new description => { new with description },
    optional "bucket_id" int64 fun new bucketId => { new with bucketId },
    defaulted "priority" int64 fun new priority => { new with priority },
    optional "due_date" instant fun new dueDate => { new with dueDate },
    defaulted "percent_done" double fun new percentDone => { new with percentDone }]

def TaskUpdate.reader : Json.Reader TaskUpdate :=
  record {} [
    optional "title" text fun patch title => { patch with title },
    optional "description" text fun patch description => { patch with description },
    optional "done" bool fun patch done => { patch with done },
    optional "priority" int64 fun patch priority => { patch with priority },
    optional "due_date" instant fun patch dueDate => { patch with dueDate },
    optional "percent_done" double fun patch percentDone => { patch with percentDone }]

def Scope.reader : Json.Reader Scope :=
  oneOf [(Scope.kanban.name, .kanban), (Scope.list.name, .list)]

def TaskMove.reader : Json.Reader TaskMove :=
  record {} [
    optional "bucket_id" int64 fun move bucketId => { move with bucketId },
    optional "before_id" int64 fun move beforeId => { move with beforeId },
    optional "after_id" int64 fun move afterId => { move with afterId },
    defaulted "scope" Scope.reader fun move scope => { move with scope }]

def ChecklistItem.reader : Json.Reader ChecklistItem :=
  record {} [
    required "name" text fun item name => { item with name },
    defaulted "checked" bool fun item checked => { item with checked }]

def Checklist.reader : Json.Reader Checklist :=
  record {} [
    required "name" text fun c name => { c with name },
    defaulted "items" (list ChecklistItem.reader) fun c items => { c with items }]

def LabelImport.reader : Json.Reader LabelImport :=
  record {} [
    required "title" text fun l title => { l with title },
    defaulted "color" text fun l color => { l with color }]

def TaskImport.reader : Json.Reader TaskImport :=
  record {} [
    required "title" text fun t title => { t with title },
    optional "description" text fun t description => { t with description },
    optional "due_date" instant fun t dueDate => { t with dueDate },
    defaulted "done" bool fun t done => { t with done },
    defaulted "labels" (list LabelImport.reader) fun t labels => { t with labels },
    defaulted "checklists" (list Checklist.reader) fun t checklists => { t with checklists }]

def BucketImport.reader : Json.Reader BucketImport :=
  record {} [
    required "title" text fun b title => { b with title },
    defaulted "limit" int64 fun b limit => { b with limit },
    defaulted "tasks" (list TaskImport.reader) fun b tasks => { b with tasks }]

def ProjectImport.reader : Json.Reader ProjectImport :=
  record {} [
    required "title" text fun p title => { p with title },
    defaulted "description" text fun p description => { p with description },
    defaulted "buckets" (list BucketImport.reader) fun p buckets => { p with buckets }]

end Kanban
